import FortigateDns.Spec.Runner
import FortigateDns.Spec.Target

/-!
# Labels and their selectors

How a label selector is read is a parameter (`Selectors`).
-/

namespace FortigateDns.Policy

open Go

/-- The entries of a `map[string]string`. -/
abbrev Labels := List (String × String)

/-- `metav1.LabelSelectorRequirement`. -/
structure Requirement where
  key : String
  operator : String
  values : List String := []
  deriving DecidableEq, Repr

/-- As Kubernetes defines it. -/
structure LabelSelector where
  matchLabels : Labels := []
  matchExpressions : List Requirement := []
  deriving DecidableEq, Repr

/-- `metav1.LabelSelectorAsSelector`: the labels a selector matches, if it can be read. -/
abbrev Selectors := LabelSelector → Option (Labels → Bool)

end FortigateDns.Policy
