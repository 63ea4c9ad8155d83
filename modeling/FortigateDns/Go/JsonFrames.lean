import FortigateDns.Go.Frames
import FortigateDns.Go.JsonReader

/-!
# JSON texts inside a longer text

A value that is followed by something other than a digit is determined by the text
(`delimited_render`), and so are the fields of a struct, one after the other (`Delimited.member`).
An array of framed elements then determines the list of its elements (`array_map_inj`).
-/

namespace Go

open List

namespace Json

/-- `encode` marks where a value ends, unless a digit follows. -/
def Delimited {α : Type} (encode : α → List Char) : Prop :=
  ∀ a b rest rest', Ends rest → Ends rest' → encode a ++ rest = encode b ++ rest' → a = b ∧ rest = rest'

/-- **A value inside a text is determined**: the reader finds it. -/
theorem delimited_render : Delimited render := by
  intro v w rest rest' hrest hrest' heq
  have hv := (readsBack (max (render v).length (render w).length)).value v rest (le_max_left _ _) hrest
  have hw := (readsBack (max (render v).length (render w).length)).value w rest' (le_max_right _ _) hrest'
  rw [heq, hw] at hv
  obtain ⟨hvalue, htail⟩ := Prod.mk.inj (Option.some.inj hv)
  exact ⟨hvalue.symm, htail.symm⟩

section Encode

variable {α : Type} {encode : α → List Char}

theorem delimited_of_value (value : α → Value) (hinj : Function.Injective value)
    (h : ∀ a, render (value a) = encode a) : Delimited encode := by
  intro a b rest rest' hrest hrest' heq
  rw [← h, ← h] at heq
  obtain ⟨hvalue, htail⟩ := delimited_render _ _ _ _ hrest hrest' heq
  exact ⟨hinj hvalue, htail⟩

/-- A field of a struct, with its name. -/
def member (name : String) (value : List Char) : List Char := string name ++ ':' :: value

/-- **The value of a field is determined**, and with it what follows its end. -/
theorem Delimited.member (h : Delimited encode) {name : String} {stop : Char} (hstop : stop.isDigit = false)
    {a b : α} {rest rest' : List Char}
    (heq : Json.member name (encode a) ++ stop :: rest = Json.member name (encode b) ++ stop :: rest') :
    a = b ∧ rest = rest' := by
  unfold Json.member at heq
  rw [append_assoc, append_assoc] at heq
  have hvalue := (List.cons.inj (append_cancel_left heq)).2
  obtain ⟨hab, htail⟩ := h a b _ _ (ends_cons hstop rest) (ends_cons hstop rest') hvalue
  exact ⟨hab, (List.cons.inj htail).2⟩

/-- The elements of a slice, with a comma in front of every element but the first. -/
theorem elements_cons (v : List Char) (l : List (List Char)) :
    elements (v :: l) = v ++ l.flatMap fun w => ',' :: w := by
  induction l generalizing v with
  | nil => rw [flatMap_nil, append_nil, elements]
  | cons w l ih => rw [elements, ih, flatMap_cons, cons_append]

/-- **An array determines the list of its elements**, if each is framed and none begins like the
end of the array. -/
theorem array_map_inj (h : Framing (fun _ : α => True) encode) (hopen : ∀ a, (encode a).head? ≠ some ']')
    (hne : ∀ a, encode a ≠ []) {l l' : List α} (heq : array (l.map encode) = array (l'.map encode)) : l = l' := by
  have helements : elements (l.map encode) ++ [']'] = elements (l'.map encode) ++ [']'] := (List.cons.inj heq).2
  have hempty : ∀ a (l : List α), [']'] ≠ elements ((a :: l).map encode) ++ [']'] := by
    intro a l hnil
    obtain ⟨c, cs, hcs⟩ := exists_cons_of_ne_nil (hne a)
    have hhead := hopen a
    rw [map_cons, elements_cons, hcs] at hnil
    rw [hcs] at hhead
    exact hhead (congrArg some (List.cons.inj hnil).1.symm)
  cases l with
  | nil =>
    cases l' with
    | nil => rfl
    | cons b l' => exact absurd helements (hempty b l')
  | cons a l =>
    cases l' with
    | nil => exact absurd helements.symm (hempty a l)
    | cons b l' =>
      rw [map_cons, map_cons, elements_cons, elements_cons, append_assoc, append_assoc,
        flatMap_map, flatMap_map] at helements
      obtain ⟨rfl, hrest⟩ := h a b _ _ trivial trivial helements
      -- the commas belong to the elements that follow them
      have hcomma : Framing (fun _ : α => True) fun a => ',' :: encode a := by
        intro x y rest rest' _ _ hxy
        exact h x y rest rest' trivial trivial (List.cons.inj hxy).2
      rw [hcomma.flatMap_inj (fun _ => cons_ne_nil _ _) (fun _ _ => trivial) (fun _ _ => trivial)
        (append_cancel_right hrest)]

end Encode

theorem delimited_string : Delimited string :=
  delimited_of_value _ (fun _ _ h => Value.string.inj h) render_string

theorem delimited_int : Delimited int := delimited_of_value _ (fun _ _ h => Value.int.inj h) render_int

theorem delimited_bool : Delimited bool := delimited_of_value _ (fun _ _ h => Value.bool.inj h) render_bool

/-- A slice of strings; a nil slice is `null`. -/
def strings (l : List String) : List Char := if l = [] then "null".toList else array (l.map string)

theorem delimited_strings : Delimited strings := by
  have harray : Delimited fun l : List String => array (l.map string) := by
    refine delimited_of_value (fun l => .array (l.map .string)) (fun l l' h => ?_) fun l => ?_
    · exact map_injective_iff.2 (fun _ _ => Value.string.inj) (Value.array.inj h)
    · exact render_array render_string l
  intro l l' rest rest' hrest hrest' heq
  unfold strings at heq
  by_cases hl : l = []
  · by_cases hl' : l' = []
    · rw [if_pos hl, if_pos hl'] at heq
      exact ⟨hl.trans hl'.symm, append_cancel_left heq⟩
    · rw [if_pos hl, if_neg hl'] at heq
      exact absurd (List.cons.inj heq).1 (by decide)
  · by_cases hl' : l' = []
    · rw [if_neg hl, if_pos hl'] at heq
      exact absurd (List.cons.inj heq).1 (by decide)
    · rw [if_neg hl, if_neg hl'] at heq
      exact harray l l' rest rest' hrest hrest' heq

end Json

end Go
