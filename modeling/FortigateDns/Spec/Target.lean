import FortigateDns.Go.Validation
import FortigateDns.Spec.Plan

/-!
# Target definitions

`internal/target/target.go`: the definition of a target, its validation, which also normalizes it,
the isolation of targets that are invalid or claim the scope of another, and the validation of a
whole list. Parsing a URL is a parameter.

A setting that the API leaves open is text; only the values that the code knows matter.
-/

namespace FortigateDns

open Go

/-- A text that names a value, or does not. -/
inductive Setting (α : Type)
  | unset
  | known (value : α)
  | unknown (text : String)
  deriving DecidableEq, Repr

/-- `v1alpha1.OwnershipMode`. -/
inductive TargetOwnershipMode
  | exclusive | shared
  deriving DecidableEq, Repr

/-- Whether plans wait for an approval. -/
inductive ApprovalMode
  | disabled | required
  deriving DecidableEq, Repr

/-- A key of a Secret. -/
structure SecretKeySelector where
  name : String
  key : String
  optional : Option Bool := none
  deriving DecidableEq, Repr

/-- A key of a Secret or ConfigMap. -/
structure LocalKeyReference where
  kind : String
  name : String
  key : String
  deriving DecidableEq, Repr

/-- `Definition`: a target as it is configured. -/
structure Definition where
  targetNamespace : String := ""
  name : String
  uid : String := ""
  resourceVersion : String := ""
  generation : Int := 0
  legacy : Bool := false
  url : String
  vdom : String := ""
  zone : String
  apiToken : String := ""
  apiTokenSecretRef : Option SecretKeySelector := none
  caFile : String := ""
  caRef : Option LocalKeyReference := none
  insecureSkipVerify : Bool := false
  ownershipMode : Setting TargetOwnershipMode
  controllerID : String
  sources : List String := []
  namespaces : List String := []
  gatewayTargetNamespaces : List String := []
  domainFilters : List String := []
  cleanupPolicy : Setting CleanupPolicy := .unset
  dryRun : Bool := false
  approvalMode : Setting ApprovalMode := .unset
  allowNonDestructiveOverlap : Bool := false
  externalNameEnabled : Bool := false
  headlessEnabled : Bool := false
  interval : Int := 0
  debounce : Int := 0
  timeout : Int := 0
  retries : Int := 0
  defaultTTL : Int := 0
  deriving DecidableEq, Repr

/-- `Key`: the text that targets are filed under. -/
def Definition.key (definition : Definition) : String :=
  if trimSpace definition.targetNamespace = "" then trimSpace definition.name
  else trimSpace definition.targetNamespace ++ "/" ++ trimSpace definition.name

/-- Why a target does not run. -/
inductive FailureReason
  | credentials | client | resources | provider | policy | ownership | approval | retry | cancelled |
      invalid | conflict
  deriving DecidableEq, Repr

/-- The errors of this package, with what their texts name. -/
inductive TargetError
  | invalidFilter (filter : String)
  | nameRequired
  | urlInvalid
  | urlScheme
  | urlParts
  | zoneRequired
  | controllerRequired
  | filterOutsideZone (filter zone : String)
  | legacyToken
  | legacySecretRef
  | inlineToken
  | secretRef
  | caFileAndRef
  | caAndInsecure
  | ownershipMode (mode : Setting TargetOwnershipMode)
  | cleanupPolicy (policy : Setting CleanupPolicy)
  | approvalMode (mode : Setting ApprovalMode)
  | restrictedShared
  | negativeDuration
  | retries
  | defaultTTL
  | duplicate (key : String)
  | overlapsActive (name incumbent : String)
  | overlap (name other : String)
  deriving DecidableEq, Repr

/-- `config.ValidateDomainFilter`, as whether it accepts. -/
def validateDomainFilter (filter : String) : Bool :=
  let name := trimSuffix (toLower (trimSpace filter)) "."
  name != "" && isDNS1123Subdomain name && (labels name.toList).all fun label => label.length ≤ 63

/-- Sorted, and each once. -/
def uniqueSorted (values : List String) : List String := (sortStrings values).destutter (· ≠ ·)

/-- Filters, normalized. -/
def normalizeSuffixes (values : List String) : List String :=
  uniqueSorted ((values.map normalizeDNSName).filter (· ≠ ""))

/-- Other lists, in lower case. -/
def normalizeValues (values : List String) : List String :=
  uniqueSorted ((values.map fun value => toLower (trimSpace value)).filter (· ≠ ""))

/-- The child is the parent or below it. -/
def suffixContains (parent child : String) : Bool :=
  normalizeDNSName parent == normalizeDNSName child ||
    hasSuffix (normalizeDNSName child) ("." ++ normalizeDNSName parent)

/-- The parts of a URL that are checked. -/
structure ParsedURL where
  scheme : String
  host : String
  hasUser : Bool := false
  rawQuery : String := ""
  fragment : String := ""
  deriving DecidableEq, Repr

/-- A check of a definition. -/
def check (bad : Prop) [Decidable bad] (err : TargetError) : Except TargetError Unit :=
  if bad then .error err else .ok ()

/-- The bound of `retries`. -/
def maxRetries : Int := 10

/-- The bound of `defaultTTL`. -/
def maxDefaultTTL : Int := 604800

/-- The part of `validateDefinition` that normalizes. -/
def Definition.normalize (definition : Definition) : Definition :=
  { definition with
    name := toLower (trimSpace definition.name)
    targetNamespace := toLower (trimSpace definition.targetNamespace)
    zone := normalizeDNSName definition.zone
    domainFilters := normalizeSuffixes definition.domainFilters
    sources := normalizeValues definition.sources
    namespaces := normalizeValues definition.namespaces
    gatewayTargetNamespaces := normalizeValues definition.gatewayTargetNamespaces }

/-- A setting with its default. -/
def Setting.orDefault {α : Type} (setting : Setting α) (value : α) : Setting α :=
  match setting with
  | .unset => .known value
  | _ => setting

/-- The value is one of the known ones. -/
def Setting.isKnown {α : Type} : Setting α → Bool
  | .known _ => true
  | _ => false

section

variable (parseURL : String → Option ParsedURL)

/-- An `https` URL without user, query and fragment. -/
def validateURL (raw : String) : Except TargetError Unit :=
  match parseURL (trimSpace raw) with
  | none => .error .urlInvalid
  | some parsed => do
    check (parsed.scheme = "" ∨ parsed.host = "") .urlInvalid
    check (parsed.scheme ≠ "https") .urlScheme
    check (parsed.hasUser = true ∨ parsed.rawQuery ≠ "" ∨ parsed.fragment ≠ "") .urlParts

/-- The checks of the credentials. -/
def checkToken (definition : Definition) : Except TargetError Unit :=
  if definition.legacy then do
    check (trimSpace definition.apiToken = "") .legacyToken
    check (definition.apiTokenSecretRef.isSome = true) .legacySecretRef
  else do
    check (definition.apiToken ≠ "") .inlineToken
    check (∀ ref ∈ definition.apiTokenSecretRef, ref.name = "" ∨ ref.key = "") .secretRef

/-- A filter outside the zone would write foreign names into the database of the zone. -/
def checkFilters (definition : Definition) : Except TargetError Unit :=
  if definition.legacy then .ok ()
  else
    match definition.domainFilters.find? fun filter => !suffixContains definition.zone filter with
    | some filter => .error (.filterOutsideZone filter definition.zone)
    | none => .ok ()

/-- The checks of `validateDefinition`, on a definition that is normalized. -/
def checkDefinition (definition : Definition) : Except TargetError Definition := do
  check (definition.name = "") .nameRequired
  validateURL parseURL definition.url
  check (definition.zone = "") .zoneRequired
  check (trimSpace definition.controllerID = "") .controllerRequired
  checkFilters definition
  checkToken definition
  check (definition.caFile ≠ "" ∧ definition.caRef.isSome = true) .caFileAndRef
  check (definition.insecureSkipVerify = true ∧
    (definition.caFile ≠ "" ∨ definition.caRef.isSome = true)) .caAndInsecure
  check (definition.ownershipMode.isKnown = false) (.ownershipMode definition.ownershipMode)
  let definition := { definition with cleanupPolicy := definition.cleanupPolicy.orDefault .delete }
  check (definition.cleanupPolicy.isKnown = false) (.cleanupPolicy definition.cleanupPolicy)
  let definition := { definition with approvalMode := definition.approvalMode.orDefault .disabled }
  check (definition.approvalMode.isKnown = false) (.approvalMode definition.approvalMode)
  check (definition.ownershipMode = .known .shared ∧ definition.namespaces ≠ [] ∧
    definition.cleanupPolicy ≠ .known .keep)
    .restrictedShared
  check (definition.interval < 0 ∨ definition.debounce < 0 ∨ definition.timeout < 0) .negativeDuration
  check (definition.retries < 0 ∨ maxRetries < definition.retries) .retries
  check (definition.defaultTTL < 0 ∨ maxDefaultTTL < definition.defaultTTL) .defaultTTL
  return definition

/-- `validateDefinition`: the definition as it is left, and the error. Filters are checked before
normalization can hide them. Of a rejected definition only the names and the generation are read. -/
def validateDefinition (definition : Definition) : Definition × Option TargetError :=
  match definition.domainFilters.find? fun filter => !validateDomainFilter filter with
  | some filter => (definition, some (.invalidFilter filter))
  | none =>
    match checkDefinition parseURL definition.normalize with
    | .error err => (definition.normalize, some err)
    | .ok checked => (checked, none)

/-- Without filters a target claims its zone. -/
def domainScopes (definition : Definition) : List String :=
  if definition.domainFilters ≠ [] then definition.domainFilters else [definition.zone]

/-- Two targets that write claim a common name. -/
def writeScopesOverlap (left right : Definition) : Bool :=
  !(left.dryRun || right.dryRun) &&
    (domainScopes left).any fun leftScope => (domainScopes right).any fun rightScope =>
      suffixContains leftScope rightScope || suffixContains rightScope leftScope

/-- Both keep what is stale, and both allow it. -/
def nonDestructiveOverlapAllowed (left right : Definition) : Bool :=
  decide (left.cleanupPolicy = .known .keep) && decide (right.cleanupPolicy = .known .keep) &&
    left.allowNonDestructiveOverlap && right.allowNonDestructiveOverlap

/-- Two targets that cannot run together. -/
def scopesConflict (left right : Definition) : Bool :=
  writeScopesOverlap left right && !nonDestructiveOverlapAllowed left right

/-- The first loop of `ValidateAll`, which leaves the definitions normalized. -/
def validateEach (seen : List String) : List Definition → Except TargetError (List Definition)
  | [] => .ok []
  | definition :: rest =>
    match validateDefinition parseURL definition with
    | (_, some err) => .error err
    | (checked, none) =>
      let key := checked.targetNamespace ++ "/" ++ checked.name
      if key ∈ seen then .error (.duplicate key)
      else do
        let checkedRest ← validateEach (key :: seen) rest
        return checked :: checkedRest

/-- The second loop: the first pair that conflicts. -/
def firstOverlap : List Definition → Option (Definition × Definition)
  | [] => none
  | definition :: rest =>
    match rest.find? (scopesConflict definition) with
    | some other => some (definition, other)
    | none => firstOverlap rest

/-- `ValidateAll`, with the definitions as it leaves them. -/
def validateAll (definitions : List Definition) : Except TargetError (List Definition) := do
  let checked ← validateEach parseURL [] definitions
  match firstOverlap checked with
  | some (left, right) => throw (.overlap left.name right.name)
  | none => return checked

/-- A target that does not run, and why. -/
structure InvalidTarget where
  targetNamespace : String
  name : String
  generation : Int
  reason : FailureReason
  err : TargetError
  deriving DecidableEq, Repr

/-- The entry of a definition, under `InvalidTarget.Key`. -/
def addInvalid (definition : Definition) (reason : FailureReason) (err : TargetError)
    (invalid : GoMap InvalidTarget) :
    GoMap InvalidTarget :=
  invalid.set definition.key ⟨definition.targetNamespace, definition.name, definition.generation, reason, err⟩

/-- The first loop of `IsolateDefinitionsWithActive`. -/
def validateCandidates (definitions : List Definition) : List Definition × GoMap InvalidTarget :=
  definitions.foldl (fun (candidates, invalid) definition =>
    match validateDefinition parseURL definition with
    | (checked, some err) => (candidates, addInvalid checked .invalid err invalid)
    | (checked, none) => (candidates ++ [checked], invalid)) ([], ∅)

end

/-- The target runs in this very generation. -/
def sameActiveTarget (active : GoMap Definition) (candidate : Definition) : Bool :=
  match active.lookup candidate.key with
  | none => false
  | some incumbent =>
    candidate.uid != "" && candidate.uid == incumbent.uid && candidate.generation == incumbent.generation

section

variable (active : GoMap Definition) (candidates : List Definition)

/-- The slice `excluded`. -/
abbrev Excluded := Fin candidates.length → Option TargetError

/-- One round of the loop over duplicates; `seen` has the first index of a key. -/
def duplicateStep (st : Excluded candidates × GoMap (Fin candidates.length)) (i : Fin candidates.length) :
    Excluded candidates × GoMap (Fin candidates.length) :=
  let key := (candidates.get i).key
  match st.2.lookup key with
  | some first =>
    (Function.update (Function.update st.1 i (some (.duplicate key))) first (some (.duplicate key)), st.2)
  | none => (st.1, st.2.set key i)

/-- Both sides of a duplicate are excluded. -/
def excludeDuplicates : Excluded candidates :=
  ((List.finRange candidates.length).foldl (duplicateStep candidates) (fun _ => none, ∅)).1

/-- The slice `incumbents`. -/
def incumbents (excluded : Excluded candidates) (i : Fin candidates.length) : Bool :=
  decide (excluded i = none) && sameActiveTarget active (candidates.get i)

/-- One round of the loop over newcomers: one that conflicts with an incumbent is excluded. -/
def newcomerStep (isIncumbent : Fin candidates.length → Bool) (excluded : Excluded candidates)
    (i : Fin candidates.length) : Excluded candidates :=
  if decide (excluded i ≠ none) || isIncumbent i then excluded
  else
    match (List.finRange candidates.length).find? fun j =>
      isIncumbent j && scopesConflict (candidates.get i) (candidates.get j) with
    | some j => Function.update excluded i
      (some (.overlapsActive (candidates.get i).name (candidates.get j).name))
    | none => excluded

/-- The second loop. -/
def excludeNewcomers (excluded : Excluded candidates) : Excluded candidates :=
  (List.finRange candidates.length).foldl
    (newcomerStep candidates (incumbents active candidates excluded)) excluded

/-- The pairs of indices that the last comparison visits. -/
def indexPairs (n : Nat) : List (Fin n × Fin n) :=
  (List.finRange n).flatMap fun i => ((List.finRange n).filter fun j => i < j).map fun j => (i, j)

/-- One comparison: both sides of a conflict among those that are eligible are excluded. -/
def overlapStep (isEligible : Fin candidates.length → Bool) (excluded : Excluded candidates)
    (pair : Fin candidates.length × Fin candidates.length) : Excluded candidates :=
  let (i, j) := pair
  if !isEligible i || !isEligible j || !scopesConflict (candidates.get i) (candidates.get j) then excluded
  else
    let excluded := if excluded i = none then
      Function.update excluded i (some (.overlap (candidates.get i).name (candidates.get j).name)) else excluded
    if excluded j = none then
      Function.update excluded j (some (.overlap (candidates.get j).name (candidates.get i).name)) else excluded

/-- The third loop. -/
def excludeOverlaps (excluded : Excluded candidates) : Excluded candidates :=
  (indexPairs candidates.length).foldl (overlapStep candidates fun i => decide (excluded i = none)) excluded

/-- The errors of the candidates that are excluded. -/
def excludedCandidates : Excluded candidates :=
  excludeOverlaps candidates (excludeNewcomers active candidates (excludeDuplicates candidates))

end

/-- The targets that may run, and the others by key. -/
structure DefinitionSet where
  valid : List Definition
  invalid : GoMap InvalidTarget

/-- One bad target does not exclude the others. -/
def isolateDefinitionsWithActive (parseURL : String → Option ParsedURL) (definitions : List Definition)
    (active : GoMap Definition) : DefinitionSet :=
  let (candidates, invalid) := validateCandidates parseURL definitions
  let excluded := excludedCandidates active candidates
  (List.finRange candidates.length).foldl (fun set i =>
    match excluded i with
    | some err => { set with invalid := addInvalid (candidates.get i) .conflict err set.invalid }
    | none => { set with valid := set.valid ++ [candidates.get i] }) ⟨[], invalid⟩

end FortigateDns
