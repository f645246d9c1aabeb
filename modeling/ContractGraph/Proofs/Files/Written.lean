import ContractGraph.Package.Versions
import ContractGraph.Proofs.Outcome

/-!
# Files that were written

A file that was written is there to be read at the same location, with the same content, and its
folder is a folder still. Text is read as it was written unless it holds a carriage return.
-/

namespace ContractGraph

set_option autoImplicit false

theorem Text.join_prefix (sep : Char) (pieces more : List (List Char)) :
    Text.join sep pieces <+: Text.join sep (pieces ++ more) := by
  induction pieces with
  | nil => exact List.nil_prefix
  | cons piece rest ih =>
    rcases rest with _ | ⟨next, rest⟩
    · rcases more with _ | ⟨next, more⟩
      · exact List.prefix_refl _
      · exact List.prefix_append piece _
    · exact (List.prefix_append_right_inj piece).mpr ((List.prefix_cons_inj sep).mpr ih)

theorem Location.parent_text_le (l : Location) :
    l.parent.text.utf8ByteSize ≤ max 1 l.text.utf8ByteSize := by
  rw [Location.text]
  split
  · exact Nat.le_max_left _ _
  · next some =>
    have whole : ¬(l.slashes = 0 ∧ l.parts = []) := by
      rintro ⟨slashes, parts⟩
      exact some ⟨slashes, by rw [Location.parent, parts]; rfl⟩
    have begins : l.parts.dropLast.map String.toList <+: l.parts.map String.toList :=
      (List.dropLast_prefix l.parts).map _
    obtain ⟨more, pieces⟩ := begins
    obtain ⟨tail, joined⟩ := Text.join_prefix '/' (l.parts.dropLast.map String.toList) more
    rw [pieces] at joined
    have text : l.text = String.ofList (List.replicate l.slashes '/' ++
        Text.join '/' (l.parts.dropLast.map String.toList)) ++ String.ofList tail := by
      rw [Location.text, if_neg whole, ← joined, ← List.append_assoc, String.ofList_append]
    rw [text, String.utf8ByteSize_append]
    exact Nat.le_trans (Nat.le_add_right _ _) (Nat.le_max_right _ _)

namespace FileTree

theorem unify_newlines_of_clear {cs : List Char} (clear : '\r' ∉ cs) : unifyNewlines cs = cs := by
  induction cs with
  | nil => rfl
  | cons c cs ih =>
    have other : c ≠ '\r' := fun same => clear (same ▸ List.mem_cons_self)
    have rest := ih fun member => clear (List.mem_cons_of_mem c member)
    unfold unifyNewlines
    split <;> simp_all

theorem decode_text_of_clear {s : String} (clear : '\r' ∉ s.toList) :
    decodeText? s.toUTF8 = some s := by
  have bytes : String.fromUTF8? s.toUTF8 = some s := by
    unfold String.fromUTF8?
    split
    · rfl
    · next broken => exact absurd s.isValidUTF8 broken
  rw [decodeText?, bytes]
  simp [unify_newlines_of_clear clear]

/-- Another tree has whatever a tree has, folders as folders. -/
structure Grows (t t' : FileTree) : Prop where
  folder : ∀ spot, t.nodeAt? spot = some .folder → t'.nodeAt? spot = some .folder
  there : ∀ spot, (t.nodeAt? spot).isSome → (t'.nodeAt? spot).isSome

theorem put_grows {t : FileTree} {names : List String} {node : FileNode}
    (room : t.HasRoom names) : t.Grows (t.put names node room) where
  folder := by
    intro spot found
    cases spot with
    | root => rfl
    | inside other =>
      rw [nodeAt?] at found ⊢
      split at found
      · next above => rw [if_pos above]
      · next below =>
        rw [if_neg below]
        have apart : other ≠ names := by
          rintro rfl
          exact room.2.2.2 found
        exact (t.nodes.get_insert_of_ne node apart).trans found
  there := by
    intro spot found
    cases spot with
    | root => rfl
    | inside other =>
      rw [nodeAt?] at found ⊢
      split
      · rfl
      · next below =>
        rw [if_neg below] at found
        rw [put, Table.get_insert]
        split
        · rfl
        · exact found

theorem Grows.step {t t' : FileTree} (grows : t.Grows t') {spot next : Spot} {part : String}
    (done : t.step spot part = .ok next) : t'.step spot part = .ok next := by
  rw [FileTree.step] at done ⊢
  split at done
  · cases done
  · next folder =>
    rw [if_neg (by simpa using grows.folder spot (by simpa using folder))]
    split at done
    · next up => rw [if_pos up, done]
    · next down =>
      rw [if_neg down]
      split at done
      · cases done
      · next short =>
        rw [if_neg short]
        split at done
        · cases done
        · next below found =>
          split at done
          · next here =>
            rw [if_pos (grows.there _ here), done]
          · cases done

theorem Grows.follow {t t' : FileTree} (grows : t.Grows t') {l : Location} {spot : Spot}
    (done : t.follow l = .ok spot) : t'.follow l = .ok spot := by
  rw [FileTree.follow] at done ⊢
  generalize start l = first at done ⊢
  generalize l.parts = parts at done ⊢
  induction parts generalizing first with
  | nil => exact done
  | cons part rest ih =>
    rw [List.foldlM_cons] at done ⊢
    obtain ⟨next, here, done⟩ := ok_of_bind done
    rw [grows.step here]
    exact ih next done

/-- A location at which a file may be put under a name in a folder that is there. -/
structure Target (t : FileTree) (l : Location) (names : List String) (name : String) : Prop where
  clear : l.hasNul = false
  short : l.text.utf8ByteSize ≤ maxPathLength
  parts : l.parts = l.parent.parts ++ [name]
  leads : t.follow l.parent = .ok (.inside names)
  folder : t.nodeAt? (.inside names) = some .folder
  own : name ≠ ".."
  brief : name.utf8ByteSize ≤ maxNameLength

theorem write_bytes_parts {t t' : FileTree} {l : Location} {content : ByteArray}
    (done : t.writeBytes l content = .ok t') :
    ∃ names name, t.Target l names name ∧
      ∃ room, t' = t.put (names ++ [name]) (.file content) room := by
  rw [writeBytes] at done
  split at done
  · cases done
  next clear =>
  split at done
  · cases done
  next short =>
  split at done
  · cases done
  next name last =>
  split at done
  · cases done
  next spot leads =>
  split at done
  · cases done
  next folder =>
  split at done
  · cases done
  next own =>
  split at done
  · cases done
  next brief =>
  cases spot with
  | root => cases done
  | inside names =>
    simp only [Spot.down?] at done
    split at done
    · cases done
    split at done
    · next room =>
      cases done
      have parts : l.parts = l.parent.parts ++ [name] := by
        obtain ⟨before, parts⟩ := List.getLast?_eq_some_iff.mp last
        rw [Location.parent, parts, List.dropLast_concat]
      exact ⟨names, name, ⟨by simpa using clear, by omega, parts, leads, by simpa using folder, own,
        by omega⟩, room, rfl⟩
    · cases done

namespace Target

variable {t t' : FileTree} {l : Location} {names : List String} {name : String}

theorem find_put (target : t.Target l names name) (content : ByteArray)
    (room : t.HasRoom (names ++ [name])) :
    (t.put (names ++ [name]) (.file content) room).find l = .ok (.file content) := by
  have grows : t.Grows (t.put (names ++ [name]) (.file content) room) := put_grows room
  generalize written : t.put (names ++ [name]) (.file content) room = t' at grows ⊢
  have file : t'.nodeAt? (.inside (names ++ [name])) = some (.file content) := by
    rw [← written, nodeAt?, room.1]
    exact t.nodes.get_insert_self _ _
  have step : t'.step (.inside names) name = .ok (.inside (names ++ [name])) := by
    rw [FileTree.step, grows.folder _ target.folder]
    simp [target.own, Nat.not_lt.mpr target.brief, Spot.down?, file]
  have follow : t'.follow l = .ok (.inside (names ++ [name])) := by
    have before : l.parent.parts.foldlM t'.step (start l) = .ok (.inside names) :=
      grows.follow target.leads
    rw [FileTree.follow, target.parts, List.foldlM_append, before]
    exact (bind_pure _).trans step
  rw [find, target.clear, follow]
  simp [Nat.not_lt.mpr target.short, file]

theorem find_parent (target : t.Target l names name) (grows : t.Grows t') :
    t'.find l.parent = .ok .folder := by
  have clear : l.parent.hasNul = false := by
    have whole := target.clear
    rw [Location.hasNul, target.parts, List.any_append, Bool.or_eq_false_iff] at whole
    exact whole.1
  have short : l.parent.text.utf8ByteSize ≤ maxPathLength := by
    have shorter := l.parent_text_le
    have whole := target.short
    have some : 1 ≤ maxPathLength := by decide
    omega
  rw [find, clear, grows.follow target.leads]
  simp [Nat.not_lt.mpr short, grows.folder _ target.folder]

end Target

variable {t t' : FileTree} {l : Location} {text : String}

theorem read_text_written (done : t.writeText l text = .ok t') (clear : '\r' ∉ text.toList) :
    t'.readText l = .ok text := by
  obtain ⟨names, name, target, room, rfl⟩ := write_bytes_parts done
  rw [readText, readBytes, target.find_put]
  simp only [decode_text_of_clear clear]

theorem folder_of_written (done : t.writeText l text = .ok t') :
    t'.isFolder l.parent = .ok true := by
  obtain ⟨names, name, target, room, rfl⟩ := write_bytes_parts done
  rw [isFolder, target.find_parent (put_grows room)]
  rfl

end FileTree

end ContractGraph
