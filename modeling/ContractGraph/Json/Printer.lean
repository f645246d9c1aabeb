import ContractGraph.Json.Basic
import ContractGraph.Number.Shortest
import ContractGraph.Text.Quoted

/-!
# JSON text

One writer with a style: which characters are escaped, what stands between items and between a
name and its value, and what breaks a line at a nesting level. An empty array or object is written
without a break inside.

Three styles are in use: dense text that keeps every character above ASCII, one line of ASCII, and
ASCII indented by two spaces a level.
-/

namespace ContractGraph

set_option autoImplicit false

namespace Json

/-- The escape of a quote, a backslash or a control character. -/
def escapeBasic (c : Char) : List Char :=
  if c = '"' then ['\\', '"']
  else if c = '\\' then ['\\', '\\']
  else if c = '\n' then ['\\', 'n']
  else if c = '\r' then ['\\', 'r']
  else if c = '\t' then ['\\', 't']
  else if c = '\x08' then ['\\', 'b']
  else if c = '\x0c' then ['\\', 'f']
  else if c.toNat < 0x20 then '\\' :: 'u' :: Text.hexDigits 4 c.toNat
  else [c]

/-- Everything outside printable ASCII is escaped by its UTF-16 units as well. -/
def escapeAscii (c : Char) : List Char :=
  if c.toNat < 0x7f then escapeBasic c
  else if c.toNat < 0x10000 then '\\' :: 'u' :: Text.hexDigits 4 c.toNat
  else
    let n := c.toNat - 0x10000
    '\\' :: 'u' :: Text.hexDigits 4 (0xd800 + n / 0x400) ++
      '\\' :: 'u' :: Text.hexDigits 4 (0xdc00 + n % 0x400)

structure Style where
  escape : Char → List Char
  comma : List Char
  colon : List Char
  lineBreak : Nat → List Char

def denseStyle : Style := ⟨escapeBasic, [','], [':'], fun _ => []⟩

def lineStyle : Style := ⟨escapeAscii, [',', ' '], [':', ' '], fun _ => []⟩

def indentedStyle : Style :=
  ⟨escapeAscii, [','], [':', ' '], fun level => '\n' :: List.replicate (2 * level) ' '⟩

def Style.string (s : Style) (cs : List Char) : List Char := '"' :: (cs.flatMap s.escape ++ ['"'])

/-- The text that a key has as a member name. -/
def keyText : Key → List Char
  | .null => "null".toList
  | .bool b => if b then "true".toList else "false".toList
  | .int i => (toString i).toList
  | .float f => (Binary64.jsonLayout.text f).toList
  | .str s => s.toList

mutual

def Style.write (s : Style) (level : Nat) : Json → List Char
  | .null => "null".toList
  | .bool b => if b then "true".toList else "false".toList
  | .int i => (toString i).toList
  | .float f => (Binary64.jsonLayout.text f).toList
  | .str t => s.string t.toList
  | .arr [] => ['[', ']']
  | .arr (v :: rest) =>
    '[' :: (s.lineBreak (level + 1) ++ s.write (level + 1) v ++ s.writeItems (level + 1) rest ++
      s.lineBreak level ++ [']'])
  | .obj [] => ['{', '}']
  | .obj ((k, v) :: rest) =>
    '{' :: (s.lineBreak (level + 1) ++ s.string (keyText k) ++ s.colon ++ s.write (level + 1) v ++
      s.writeFields (level + 1) rest ++ s.lineBreak level ++ ['}'])

/-- Items after the first one. -/
def Style.writeItems (s : Style) (level : Nat) : List Json → List Char
  | [] => []
  | v :: rest => s.comma ++ s.lineBreak level ++ s.write level v ++ s.writeItems level rest

/-- Members after the first one. -/
def Style.writeFields (s : Style) (level : Nat) : List (Key × Json) → List Char
  | [] => []
  | (k, v) :: rest =>
    s.comma ++ s.lineBreak level ++ s.string (keyText k) ++ s.colon ++ s.write level v ++
      s.writeFields level rest

end

def dense (v : Json) : String := String.ofList (denseStyle.write 0 v)

def oneLine (v : Json) : String := String.ofList (lineStyle.write 0 v)

def indented (v : Json) : String := String.ofList (indentedStyle.write 0 v)

example : (Json.obj [(.str "é", .arr []), (.int 1, .str "\x07\"")]).dense =
    "\x7b\"é\":[],\"1\":\"\\u0007\\\"\"\x7d" := by decide +kernel
example : (Json.arr [.str "😀\x7f", .bool true]).oneLine =
    "[\"\\ud83d\\ude00\\u007f\", true]" := by decide +kernel
example : (Json.arr [.arr [], .obj [(.str "a", .null)]]).indented =
    "[\n  [],\n  \x7b\n    \"a\": null\n  \x7d\n]" := by decide +kernel

end Json

end ContractGraph
