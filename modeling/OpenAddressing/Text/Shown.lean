import OpenAddressing.Text.Quoted

/-!
# Showing values

Values are shown on one line or spread over several. A group (a tuple, a list, a
dictionary) that is spread has one item a line, indented by four spaces, each
with a comma after it. An empty group is two brackets either way.
-/

namespace OpenAddressing.Text

/-- How a group is laid out. -/
inductive Style where
  | inline
  | spread
deriving DecidableEq, Repr

/-- Every line of a text moved in by one step. -/
def indented (s : String) : String :=
  "    " ++ "\n    ".intercalate (s.splitOn "\n")

/-- Items between two brackets. -/
def group (style : Style) (opening closing : String) (items : List String) : String :=
  match style, items with
  | _, [] => opening ++ closing
  | .inline, _ => opening ++ ", ".intercalate items ++ closing
  | .spread, _ =>
      opening ++ "\n" ++ String.join (items.map fun s => indented s ++ ",\n") ++ closing

/-- Values that can be shown. -/
class Shown (α : Type) where
  /-- The text of a value in a style. -/
  shown : Style → α → String

export Shown (shown)

instance : Shown String := ⟨fun _ s => quoted s⟩
instance : Shown UInt8 := ⟨fun _ n => toString n.toNat⟩
instance : Shown UInt16 := ⟨fun _ n => toString n.toNat⟩
instance : Shown UInt32 := ⟨fun _ n => toString n.toNat⟩
instance : Shown UInt64 := ⟨fun _ n => toString n.toNat⟩
instance : Shown Int64 := ⟨fun _ n => toString n.toInt⟩

variable {α β : Type} [Shown α] [Shown β]

instance : Shown (α × β) :=
  ⟨fun style (a, b) => group style "(" ")" [shown style a, shown style b]⟩

instance : Shown (List α) := ⟨fun style xs => group style "[" "]" (xs.map (shown style))⟩

/-- The text of a sequence of bindings. -/
def shownBindings (style : Style) (items : List (α × β)) : String :=
  group style "\x7b" "\x7d"
    (items.map fun (k, v) => shown style k ++ ": " ++ shown style v)

end OpenAddressing.Text
