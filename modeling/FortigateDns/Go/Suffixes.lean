import FortigateDns.Go.Subdomain

/-!
# Domains by their suffix

A name lies in a domain when it is the domain, or ends in a dot and the domain. The domains of one
name form a chain.

* `strict_suffix_total`, `within_total`: **two domains of one name are comparable**, at the boundary of a label.
-/

namespace Go

variable {a b : List Char}

/-- The name is the domain, or a dot and the domain end it. -/
def Within (domain name : List Char) : Prop := name = domain ∨ '.' :: domain <:+ name

/-- **Of two ends of one name that begin with a dot, one ends the other.** -/
theorem strict_suffix_total {name : List Char} (ha : '.' :: a <:+ name) (hb : '.' :: b <:+ name) :
    '.' :: a <:+ '.' :: b ∨ '.' :: b <:+ '.' :: a :=
  List.suffix_or_suffix_of_suffix ha hb

/-- A dot and a domain that end a dot and another one: they are equal, or one lies in the other. -/
theorem within_of_suffix (h : '.' :: a <:+ '.' :: b) : Within a b := by
  rcases List.suffix_cons_iff.1 h with h | h
  · exact .inl (List.cons.inj h).2.symm
  · exact .inr h

theorem suffix_of_within (h : Within a b) : '.' :: a <:+ '.' :: b := by
  rcases h with rfl | h
  · exact List.suffix_rfl
  · exact h.trans (List.suffix_cons _ _)

/-- **Two domains of one name are comparable.** -/
theorem within_total {name : List Char} (ha : Within a name) (hb : Within b name) : Within a b ∨ Within b a := by
  rcases ha with rfl | ha
  · exact .inr hb
  · rcases hb with rfl | hb
    · exact .inl (.inr ha)
    · exact (strict_suffix_total ha hb).imp within_of_suffix within_of_suffix

/-- The check of a domain by its text. -/
theorem within_iff (domain name : String) :
    (name == domain || hasSuffix name ("." ++ domain)) = true ↔ Within domain.toList name.toList := by
  rw [Bool.or_eq_true, beq_iff_eq, hasSuffix, List.isSuffixOf_iff_suffix, String.toList_append]
  exact or_congr String.toList_inj.symm Iff.rfl

end Go
