import Mathlib.Logic.Relation
import Mathlib.Order.WellFounded
import FortigateDns.Spec.Executor

/-!
# The search for prerequisite cycles

`dependencyCycle` searches the prerequisites depth first. A node that is done is **accessible**:
everything it needs, directly or not, is done as well, and there is no way around a cycle. The
nodes that are being visited are the ones that lead to the current node, so one that is met again
lies on a cycle.

* `VisitRun`, `visitRun_visit`: the recursion without a bound, and that the bound is never met.
-/

namespace FortigateDns

open Go List

section Search

variable {σ : Type} (step : String → σ → String × σ) (P : σ → Prop) (Done : String → σ → Prop)
  (Found : String → Prop)

/-- A fold that stops at the first text found. -/
def searchFold (l : List String) (r : String × σ) : String × σ :=
  l.foldl (fun r id => if r.1 ≠ "" then r else step id r.2) r

theorem searchFold_found {l : List String} {r : String × σ} (h : r.1 ≠ "") : searchFold step l r = r := by
  induction l with
  | nil => rfl
  | cons id l ih =>
    unfold searchFold
    rw [foldl_cons, if_pos h]
    exact ih

theorem searchFold_cons {id : String} {l : List String} {s : σ} :
    searchFold step (id :: l) ("", s) = searchFold step l (step id s) := by
  unfold searchFold
  rw [foldl_cons, if_neg (by simp)]

/-- **What each step keeps, the search keeps**, and every element of the list is done at its end. -/
theorem searchFold_spec {l : List String} {s : σ} (hstep : ∀ id ∈ l, ∀ s, P s → (step id s).1 = "" →
      P (step id s).2 ∧ Done id (step id s).2 ∧ ∀ x, Done x s → Done x (step id s).2)
    (hfound : ∀ id ∈ l, ∀ s, P s → (step id s).1 ≠ "" → Found (step id s).1) (hs : P s) :
    ((searchFold step l ("", s)).1 = "" → P (searchFold step l ("", s)).2 ∧
      (∀ id ∈ l, Done id (searchFold step l ("", s)).2) ∧ ∀ x, Done x s → Done x (searchFold step l ("", s)).2) ∧
    ((searchFold step l ("", s)).1 ≠ "" → Found (searchFold step l ("", s)).1) := by
  induction l generalizing s with
  | nil => exact ⟨fun _ => ⟨hs, by simp, fun _ h => h⟩, fun h => absurd rfl h⟩
  | cons id l ih =>
    rw [searchFold_cons]
    by_cases hempty : (step id s).1 = ""
    · obtain ⟨hP, hdone, hmono⟩ := hstep id mem_cons_self s hs hempty
      have hpair : step id s = ("", (step id s).2) := Prod.ext hempty rfl
      rw [hpair]
      obtain ⟨hrest, hfoundRest⟩ := ih (fun x hx => hstep x (mem_cons_of_mem _ hx))
        (fun x hx => hfound x (mem_cons_of_mem _ hx)) hP
      refine ⟨fun h => ?_, hfoundRest⟩
      obtain ⟨hPend, hall, hkeep⟩ := hrest h
      refine ⟨hPend, fun x hx => ?_, fun x hx => hkeep x (hmono x hx)⟩
      rcases mem_cons.1 hx with rfl | hx
      · exact hkeep _ hdone
      · exact hall x hx
    · rw [searchFold_found step hempty]
      exact ⟨fun h => absurd h hempty, fun _ => hfound id mem_cons_self s hs hempty⟩

end Search

section Visit

variable {requirements : String → List String}

/-- `b` is one of the direct requirements of `a`. -/
def Needs (requirements : String → List String) (b a : String) : Prop := b ∈ requirements a

/-- **The nodes that are done are accessible.** -/
def DoneAccessible (requirements : String → List String) (state : String → Visit) : Prop :=
  ∀ a, state a = .visited → Acc (Needs requirements) a

/-- The nodes being visited lead to `id`. -/
def LeadTo (requirements : String → List String) (state : String → Visit) (id : String) : Prop :=
  ∀ v, state v = .visiting → Relation.TransGen (Needs requirements) id v

/-- The same nodes are being visited. -/
def SameStack (state state' : String → Visit) : Prop := ∀ a, state' a = .visiting ↔ state a = .visiting

/-- The nodes with requirements that are not being visited. -/
def free (keys : List String) (state : String → Visit) : Nat := keys.countP fun k => state k ≠ .visiting

theorem free_congr {keys : List String} {state state' : String → Visit} (h : SameStack state state') :
    free keys state' = free keys state := by
  unfold free
  congr 1
  funext k
  simp [h k]

theorem free_update {keys : List String} {state : String → Visit} {id : String} (hid : id ∈ keys)
    (hstate : state id ≠ .visiting) : free keys (Function.update state id .visiting) < free keys state := by
  unfold free
  induction keys with
  | nil => cases hid
  | cons k keys ih =>
    have hle : keys.countP (fun k => Function.update state id .visiting k ≠ .visiting) ≤
        keys.countP fun k => state k ≠ .visiting := by
      refine countP_mono_left fun x _ hx => ?_
      by_cases hxid : x = id
      · subst hxid; simpa using hstate
      · rwa [Function.update_of_ne hxid] at hx
    rw [countP_cons, countP_cons]
    by_cases hk : k = id
    · subst hk
      rw [if_neg (by simp), if_pos (by simpa using hstate)]
      omega
    · have := ih (mem_of_ne_of_mem (fun h => hk h.symm) hid)
      rw [Function.update_of_ne hk]
      omega

theorem visit_visiting {n : Nat} {id : String} {state : String → Visit} (h : state id = .visiting) :
    visitDependencies requirements (n + 1) id state = (id, state) := by
  unfold visitDependencies
  rw [h]

theorem visit_visited {n : Nat} {id : String} {state : String → Visit} (h : state id = .visited) :
    visitDependencies requirements (n + 1) id state = ("", state) := by
  unfold visitDependencies
  rw [h]

/-- The search below a node that is new. -/
def below (requirements : String → List String) (n : Nat) (id : String) (state : String → Visit) :
    String × (String → Visit) :=
  searchFold (visitDependencies requirements n) (requirements id) ("", Function.update state id .visiting)

theorem visit_unvisited {n : Nat} {id : String} {state : String → Visit} (h : state id = .unvisited) :
    visitDependencies requirements (n + 1) id state =
      if (below requirements n id state).1 ≠ "" then below requirements n id state
      else ("", Function.update (below requirements n id state).2 id .visited) := by
  rw [visitDependencies, h]
  rfl

variable {keys : List String} (hkeys : ∀ a, requirements a ≠ [] → a ∈ keys)
  (hname : ∀ a, ∀ b ∈ requirements a, b ≠ "")

/-- What a call of `visit` leaves behind when it finds nothing. -/
structure Visited (requirements : String → List String) (id : String) (state after : String → Visit) : Prop where
  accessible : DoneAccessible requirements after
  done : after id = .visited
  stack : SameStack state after
  mono : ∀ a, state a = .visited → after a = .visited

/-- Putting a node on the stack finishes none. -/
theorem doneAccessible_update {state : String → Visit} (hacc : DoneAccessible requirements state) (id : String) :
    DoneAccessible requirements (Function.update state id .visiting) := by
  intro a ha
  by_cases haid : a = id
  · subst haid; rw [Function.update_self] at ha; cases ha
  · rw [Function.update_of_ne haid] at ha; exact hacc a ha

include hkeys in
/-- While its requirements are visited, a node is on the stack. -/
theorem below_call {n : Nat} {id : String} {state : String → Visit} (hstate : state id = .unvisited)
    (hdepth : free keys state + 2 ≤ n + 1) (hlead : LeadTo requirements state id) {r : String}
    (hr : r ∈ requirements id) {s : String → Visit} (hstack : SameStack (Function.update state id .visiting) s) :
    free keys s + 2 ≤ n ∧ LeadTo requirements s r := by
  have hkey : id ∈ keys := hkeys id (ne_nil_of_mem hr)
  have hless : free keys (Function.update state id .visiting) < free keys state :=
    free_update hkey (by rw [hstate]; decide)
  refine ⟨by rw [free_congr hstack]; omega, fun v hv => ?_⟩
  have hedge : Needs requirements r id := hr
  by_cases hvid : v = id
  · subst hvid; exact .single hedge
  · have hv : state v = .visiting := by
      have := (hstack v).1 hv
      rwa [Function.update_of_ne hvid] at this
    exact .head hedge (hlead v hv)

include hkeys hname in
/-- **One call of `visit`**, with a level left for every node that may still be put on the stack. -/
theorem visit_spec (n : Nat) (id : String) (state : String → Visit) (hid : id ≠ "")
    (hdepth : free keys state + 2 ≤ n) (hacc : DoneAccessible requirements state)
    (hlead : LeadTo requirements state id) :
    ((visitDependencies requirements n id state).1 = "" →
      Visited requirements id state (visitDependencies requirements n id state).2) ∧
    ((visitDependencies requirements n id state).1 ≠ "" →
      Relation.TransGen (Needs requirements) (visitDependencies requirements n id state).1
        (visitDependencies requirements n id state).1) := by
  -- by the depth that is left
  induction n generalizing id state with
  | zero => omega
  | succ n ih =>
    cases hstate : state id with
    | visiting =>
      rw [visit_visiting hstate]
      exact ⟨fun h => absurd h hid, fun _ => hlead id hstate⟩
    | visited =>
      rw [visit_visited hstate]
      exact ⟨fun _ => ⟨hacc, hstate, fun _ => Iff.rfl, fun _ h => h⟩, fun h => absurd rfl h⟩
    | unvisited =>
      rw [visit_unvisited hstate]
      obtain ⟨hempty, hfound⟩ := searchFold_spec (visitDependencies requirements n)
        (fun s => DoneAccessible requirements s ∧ SameStack (Function.update state id .visiting) s)
        (fun x s => s x = .visited) (fun c => Relation.TransGen (Needs requirements) c c)
        (l := requirements id) (s := Function.update state id .visiting)
        (by
          rintro r hr s hs hnone
          obtain ⟨hfuel, hleads⟩ := below_call hkeys hstate hdepth hlead hr hs.2
          have hv := (ih r s (hname id r hr) hfuel hs.1 hleads).1 hnone
          exact ⟨⟨hv.accessible, fun a => (hv.stack a).trans (hs.2 a)⟩, hv.done, hv.mono⟩)
        (by
          rintro r hr s hs hsome
          obtain ⟨hfuel, hleads⟩ := below_call hkeys hstate hdepth hlead hr hs.2
          exact (ih r s (hname id r hr) hfuel hs.1 hleads).2 hsome)
        ⟨doneAccessible_update hacc _, fun _ => Iff.rfl⟩
      change ((below requirements n id state).1 = "" → _) at hempty
      change ((below requirements n id state).1 ≠ "" → _) at hfound
      by_cases hnone : (below requirements n id state).1 = ""
      · rw [if_neg (not_not.2 hnone)]
        refine ⟨fun _ => ?_, fun h => absurd rfl h⟩
        show Visited requirements id state (Function.update (below requirements n id state).2 id .visited)
        obtain ⟨⟨hacc', hstack'⟩, hall, hmono⟩ := hempty hnone
        have hne : ∀ {a}, state a ≠ .unvisited → a ≠ id := fun h heq => h (heq ▸ hstate)
        refine ⟨fun a ha => ?_, Function.update_self .., fun a => ?_, fun a ha => ?_⟩
        · by_cases haid : a = id
          · -- everything `id` needs is done
            subst haid
            exact Acc.intro _ fun b hb => hacc' b (hall b hb)
          · rw [Function.update_of_ne haid] at ha
            exact hacc' a ha
        · by_cases haid : a = id
          · subst haid; rw [Function.update_self, hstate]; decide
          · rw [Function.update_of_ne haid]
            exact (hstack' a).trans (by rw [Function.update_of_ne haid])
        · have haid : a ≠ id := hne (by rw [ha]; decide)
          rw [Function.update_of_ne haid]
          exact hmono a (by rw [Function.update_of_ne haid]; exact ha)
      · rw [if_pos hnone]
        exact ⟨fun h => absurd h hnone, fun _ => hfound hnone⟩

end Visit

mutual

/-- **The calls of `visit` without a bound on their depth**: a derivation is a run that ends, with
what the call returns and the states it leaves. -/
inductive VisitRun (requirements : String → List String) :
    String → (String → Visit) → String → (String → Visit) → Prop
  | visiting {id : String} {state : String → Visit} (h : state id = .visiting) :
    VisitRun requirements id state id state
  | visited {id : String} {state : String → Visit} (h : state id = .visited) :
    VisitRun requirements id state "" state
  | found {id c : String} {state after : String → Visit} (h : state id = .unvisited) (hc : c ≠ "")
    (hrun : EachRun requirements (requirements id) (Function.update state id .visiting) c after) :
    VisitRun requirements id state c after
  | done {id : String} {state after : String → Visit} (h : state id = .unvisited)
    (hrun : EachRun requirements (requirements id) (Function.update state id .visiting) "" after) :
    VisitRun requirements id state "" (Function.update after id .visited)

/-- The loop of calls over some nodes. -/
inductive EachRun (requirements : String → List String) :
    List String → (String → Visit) → String → (String → Visit) → Prop
  | nil {state : String → Visit} : EachRun requirements [] state "" state
  | found {id c : String} {l : List String} {state after : String → Visit} (hc : c ≠ "")
    (hrun : VisitRun requirements id state c after) : EachRun requirements (id :: l) state c after
  | next {id c : String} {l : List String} {state between after : String → Visit}
    (hrun : VisitRun requirements id state "" between) (hrest : EachRun requirements l between c after) :
    EachRun requirements (id :: l) state c after

end

/-- A search whose steps run is the run of the loop. -/
theorem eachRun_searchFold {requirements : String → List String}
    {step : String → (String → Visit) → String × (String → Visit)} {P : (String → Visit) → Prop} {l : List String}
    (hstep : ∀ id ∈ l, ∀ s, P s → VisitRun requirements id s (step id s).1 (step id s).2 ∧
      ((step id s).1 = "" → P (step id s).2)) {s : String → Visit} (hs : P s) :
    EachRun requirements l s (searchFold step l ("", s)).1 (searchFold step l ("", s)).2 := by
  induction l generalizing s with
  | nil => exact .nil
  | cons id l ih =>
    obtain ⟨hrun, hkeep⟩ := hstep id mem_cons_self s hs
    rw [searchFold_cons]
    by_cases hempty : (step id s).1 = ""
    · have hpair : step id s = ("", (step id s).2) := Prod.ext hempty rfl
      rw [hempty] at hrun
      rw [hpair]
      exact .next hrun (ih (fun x hx => hstep x (mem_cons_of_mem _ hx)) (hkeep hempty))
    · rw [searchFold_found step hempty]
      exact .found hempty hrun

section Run

variable {requirements : String → List String} {keys : List String} (hkeys : ∀ a, requirements a ≠ [] → a ∈ keys)
  (hname : ∀ a, ∀ b ∈ requirements a, b ≠ "")

include hkeys hname in
/-- **With a level for every node that may still be put on the stack, the bound is never met.** -/
theorem visitRun_visit (n : Nat) (id : String) (state : String → Visit) (hid : id ≠ "")
    (hdepth : free keys state + 2 ≤ n) (hacc : DoneAccessible requirements state)
    (hlead : LeadTo requirements state id) :
    VisitRun requirements id state (visitDependencies requirements n id state).1
      (visitDependencies requirements n id state).2 := by
  induction n generalizing id state with
  | zero => omega
  | succ n ih =>
    cases hstate : state id with
    | visiting =>
      rw [visit_visiting hstate]
      exact .visiting hstate
    | visited =>
      rw [visit_visited hstate]
      exact .visited hstate
    | unvisited =>
      rw [visit_unvisited hstate]
      have hstart := doneAccessible_update hacc id
      have hrun : EachRun requirements (requirements id) (Function.update state id .visiting)
          (below requirements n id state).1 (below requirements n id state).2 := by
        refine eachRun_searchFold
          (P := fun s => DoneAccessible requirements s ∧ SameStack (Function.update state id .visiting) s)
          (fun r hr s hs => ?_) ⟨hstart, fun _ => Iff.rfl⟩
        obtain ⟨hfuel, hleads⟩ := below_call hkeys hstate hdepth hlead hr hs.2
        refine ⟨ih r s (hname id r hr) hfuel hs.1 hleads, fun hnone => ?_⟩
        have hv := (visit_spec hkeys hname n r s (hname id r hr) hfuel hs.1 hleads).1 hnone
        exact ⟨hv.accessible, fun a => (hv.stack a).trans (hs.2 a)⟩
      by_cases hnone : (below requirements n id state).1 = ""
      · rw [if_neg (not_not.2 hnone)]
        rw [hnone] at hrun
        exact .done hstate hrun
      · rw [if_pos hnone]
        exact .found hstate hnone hrun

end Run

section Graph

variable (order : List String → List String) (dependencies : GoMap (List String))

/-- `dependencyCycle` over its argument, the map of requirements (`dependencyCycle_eq_cycleOf`: the
search of `Validate` is this one at the map it collects). -/
def cycleOf : String :=
  (searchFold (visitDependencies dependencies.slice (dependencies.keys.length + 2)) (order dependencies.keys)
    ("", fun _ => .unvisited)).1

/-- No identifier of the graph is empty. -/
def NamedGraph (dependencies : GoMap (List String)) : Prop :=
  ∀ id ids, dependencies.lookup id = some ids → id ≠ "" ∧ ∀ r ∈ ids, r ≠ ""

theorem slice_of_lookup {id : String} {ids : List String} (h : dependencies.lookup id = some ids) :
    dependencies.slice id = ids := by
  unfold GoMap.slice
  rw [h]
  rfl

variable {order dependencies} (horder : ∀ l, (order l).Perm l) (hnamed : NamedGraph dependencies)

include hnamed in
theorem slice_named (a : String) : ∀ b ∈ dependencies.slice a, b ≠ "" := by
  intro b hb
  cases h : dependencies.lookup a with
  | none =>
    unfold GoMap.slice at hb
    rw [h] at hb
    cases hb
  | some ids =>
    rw [slice_of_lookup dependencies h] at hb
    exact (hnamed a ids h).2 b hb

theorem mem_keys_of_slice {a : String} (h : dependencies.slice a ≠ []) : a ∈ dependencies.keys := by
  rw [← AList.mem_keys, ← AList.lookup_isSome]
  cases hlook : dependencies.lookup a with
  | some ids => rfl
  | none =>
    refine absurd ?_ h
    unfold GoMap.slice
    rw [hlook]
    rfl

include horder hnamed in
theorem order_named : ∀ id ∈ order dependencies.keys, id ≠ "" := by
  intro id hid
  have hmem : id ∈ dependencies := by
    rw [AList.mem_keys]
    exact (horder dependencies.keys).mem_iff.1 hid
  rw [← AList.lookup_isSome, Option.isSome_iff_exists] at hmem
  obtain ⟨ids, hids⟩ := hmem
  exact (hnamed id ids hids).1

/-- Between the calls of the outer loop nothing is being visited. -/
theorem outer_call {s : String → Visit} (hstack : SameStack (fun _ => Visit.unvisited) s) (id : String) :
    free dependencies.keys s + 2 ≤ dependencies.keys.length + 2 ∧ LeadTo dependencies.slice s id := by
  refine ⟨Nat.add_le_add_right (countP_le_length ..) 2, fun v hv => ?_⟩
  cases (hstack v).1 hv

include horder hnamed in
theorem cycleOf_spec :
    (cycleOf order dependencies = "" → ∀ a ∈ dependencies.keys, Acc (Needs dependencies.slice) a) ∧
    (cycleOf order dependencies ≠ "" →
      Relation.TransGen (Needs dependencies.slice) (cycleOf order dependencies)
        (cycleOf order dependencies)) := by
  have hid := order_named horder hnamed
  have hspec := fun id hmem (s : String → Visit)
      (hs : DoneAccessible dependencies.slice s ∧ SameStack (fun _ => Visit.unvisited) s) =>
    visit_spec (fun _ => mem_keys_of_slice) (slice_named hnamed) (dependencies.keys.length + 2) id s (hid id hmem)
      (outer_call hs.2 id).1 hs.1 (outer_call hs.2 id).2
  obtain ⟨hempty, hfound⟩ := searchFold_spec (visitDependencies dependencies.slice (dependencies.keys.length + 2))
    (fun s => DoneAccessible dependencies.slice s ∧ SameStack (fun _ => Visit.unvisited) s)
    (fun x s => s x = .visited) (fun c => Relation.TransGen (Needs dependencies.slice) c c)
    (l := order dependencies.keys) (s := fun _ => Visit.unvisited)
    (by
      rintro id hmem s hs hnone
      have hv := (hspec id hmem s hs).1 hnone
      exact ⟨⟨hv.accessible, fun a => (hv.stack a).trans (hs.2 a)⟩, hv.done, hv.mono⟩)
    (fun id hmem s hs hsome => (hspec id hmem s hs).2 hsome)
    ⟨fun a ha => (by cases ha), fun _ => Iff.rfl⟩
  refine ⟨fun h a ha => ?_, hfound⟩
  obtain ⟨⟨hacc, -⟩, hall, -⟩ := hempty h
  exact hacc a (hall a ((horder dependencies.keys).mem_iff.2 ha))

include horder hnamed in
/-- **The search finds nothing if and only if the requirements are well-founded.** -/
theorem cycleOf_eq_empty_iff : cycleOf order dependencies = "" ↔ WellFounded (Needs dependencies.slice) := by
  obtain ⟨hempty, hfound⟩ := cycleOf_spec horder hnamed
  constructor
  · intro h
    refine ⟨fun a => Acc.intro a fun b hb => ?_⟩
    by_cases hkey : dependencies.slice b = []
    · refine Acc.intro b fun c (hc : c ∈ dependencies.slice b) => absurd hc ?_
      rw [hkey]
      exact not_mem_nil
    · exact hempty h b (mem_keys_of_slice hkey)
  · intro hwf
    by_contra hne
    exact hwf.transGen.irrefl.irrefl _ (hfound hne)

include horder hnamed in
/-- The search runs to its end. -/
theorem cycleOf_run :
    ∃ after, EachRun dependencies.slice (order dependencies.keys) (fun _ => .unvisited)
      (cycleOf order dependencies) after := by
  have hid := order_named horder hnamed
  refine ⟨_, eachRun_searchFold
    (P := fun s => DoneAccessible dependencies.slice s ∧ SameStack (fun _ => Visit.unvisited) s)
    (fun id hmem s hs => ?_) ⟨fun a ha => (by cases ha), fun _ => Iff.rfl⟩⟩
  obtain ⟨hfuel, hleads⟩ := outer_call hs.2 id
  have hkeys : ∀ a, dependencies.slice a ≠ [] → a ∈ dependencies.keys := fun _ => mem_keys_of_slice
  refine ⟨visitRun_visit hkeys (slice_named hnamed) _ id s (hid id hmem) hfuel hs.1 hleads, fun hnone => ?_⟩
  have hv := (visit_spec hkeys (slice_named hnamed) _ id s (hid id hmem) hfuel hs.1 hleads).1 hnone
  exact ⟨hv.accessible, fun a => (hv.stack a).trans (hs.2 a)⟩

end Graph

section Cycle

variable (rt : DocumentRuntime) (edges : List PrerequisiteEdge)

/-- `b` is a direct prerequisite of `a`. -/
def Prerequisite (edges : List PrerequisiteEdge) (b a : String) : Prop :=
  ∃ e ∈ edges, e.operationID = a ∧ e.requiresOperationID = b

/-- The map of requirements that `Validate` collects. -/
def requirementsOf (edges : List PrerequisiteEdge) : GoMap (List String) :=
  edges.foldl (fun m e => m.appendAt e.operationID e.requiresOperationID) ∅

theorem keys_appendAt {β : Type} (m : GoMap (List β)) (k : String) (v : β) :
    (m.appendAt k v).keys = k :: m.keys.erase k :=
  AList.keys_insert _

/-- The requirements, and the edges by their operation, have the same keys and slices. -/
theorem requirementsOf_groupBy :
    (requirementsOf edges).keys = (GoMap.groupBy PrerequisiteEdge.operationID edges).keys ∧
      ∀ id, (requirementsOf edges).slice id = dependenciesOf edges id := by
  have hloop : ∀ (m : GoMap (List String)) (m' : GoMap (List PrerequisiteEdge)), m.keys = m'.keys →
      (∀ id, m.slice id = (m'.slice id).map PrerequisiteEdge.requiresOperationID) →
      (edges.foldl (fun m e => m.appendAt e.operationID e.requiresOperationID) m).keys =
          (edges.foldl (fun m e => m.appendAt e.operationID e) m').keys ∧
        ∀ id, (edges.foldl (fun m e => m.appendAt e.operationID e.requiresOperationID) m).slice id =
          ((edges.foldl (fun m e => m.appendAt e.operationID e) m').slice id).map
            PrerequisiteEdge.requiresOperationID := by
    induction edges with
    | nil => exact fun m m' hkeys hslices => ⟨hkeys, hslices⟩
    | cons e edges ih =>
      intro m m' hkeys hslices
      refine ih _ _ (by rw [keys_appendAt, keys_appendAt, hkeys]) fun id => ?_
      rw [GoMap.slice_appendAt, GoMap.slice_appendAt, hslices]
      split
      · rw [map_append]
        rfl
      · rfl
  exact hloop ∅ ∅ rfl fun id => rfl

theorem dependencyCycle_eq_cycleOf : dependencyCycle rt edges = cycleOf rt.order (requirementsOf edges) := by
  obtain ⟨hkeys, hslices⟩ := requirementsOf_groupBy edges
  have hslice : (requirementsOf edges).slice = dependenciesOf edges := funext hslices
  unfold cycleOf
  rw [hkeys, hslice]
  rfl

theorem mem_dependenciesOf {a b : String} : b ∈ dependenciesOf edges a ↔ Prerequisite edges b a := by
  unfold dependenciesOf Prerequisite
  rw [GoMap.slice_groupBy]
  simp only [mem_map, mem_filter, decide_eq_true_eq]
  exact ⟨fun ⟨e, ⟨he, ha⟩, hb⟩ => ⟨e, he, ha, hb⟩, fun ⟨e, he, ha, hb⟩ => ⟨e, ⟨he, ha⟩, hb⟩⟩

theorem needs_requirementsOf : Needs (requirementsOf edges).slice = Prerequisite edges := by
  funext b a
  unfold Needs
  rw [(requirementsOf_groupBy edges).2]
  exact propext (mem_dependenciesOf edges)

/-- The identifiers in the edges are not empty. -/
def NamedEdges (edges : List PrerequisiteEdge) : Prop :=
  ∀ e ∈ edges, e.operationID ≠ "" ∧ e.requiresOperationID ≠ ""

variable {edges} (hnamed : NamedEdges edges)

include hnamed in
theorem namedGraph_requirementsOf : NamedGraph (requirementsOf edges) := by
  intro id ids hids
  have hkey : id ∈ GoMap.groupBy PrerequisiteEdge.operationID edges := by
    rw [AList.mem_keys, ← (requirementsOf_groupBy edges).1, ← AList.mem_keys, ← AList.lookup_isSome, hids]
    rfl
  rw [← AList.lookup_isSome, GoMap.lookup_groupBy] at hkey
  refine ⟨?_, fun r hr => ?_⟩
  · split at hkey
    · rename_i hin
      obtain ⟨e, he, rfl⟩ := mem_map.1 hin
      exact (hnamed e he).1
    · cases hkey
  · have hneed : Needs (requirementsOf edges).slice r id := by
      unfold Needs
      rwa [slice_of_lookup _ hids]
    rw [needs_requirementsOf] at hneed
    obtain ⟨e, he, -, rfl⟩ := hneed
    exact (hnamed e he).2

include hnamed in
/-- **The search finds nothing if and only if the prerequisites are well-founded.** -/
theorem dependencyCycle_eq_empty_iff : dependencyCycle rt edges = "" ↔ WellFounded (Prerequisite edges) := by
  rw [dependencyCycle_eq_cycleOf, cycleOf_eq_empty_iff rt.order_perm (namedGraph_requirementsOf hnamed),
    needs_requirementsOf]

end Cycle

/-- **The search for cycles is correct.** On every graph whose identifiers are not empty, in every
order of the map, it runs to its end, finds something if and only if there is a cycle, and what
it finds lies on one. -/
theorem dependencyCycle_correct (order : List String → List String) (horder : ∀ l, (order l).Perm l)
    (dependencies : GoMap (List String)) (hnamed : NamedGraph dependencies) :
    (∃ after, EachRun dependencies.slice (order dependencies.keys) (fun _ => .unvisited)
      (cycleOf order dependencies)
        after) ∧
      (cycleOf order dependencies ≠ "" ↔ ∃ id, Relation.TransGen (Needs dependencies.slice) id id) ∧
      (cycleOf order dependencies ≠ "" →
        Relation.TransGen (Needs dependencies.slice) (cycleOf order dependencies)
          (cycleOf order dependencies)) := by
  have hfound := (cycleOf_spec horder hnamed).2
  refine ⟨cycleOf_run horder hnamed, ⟨fun h => ⟨_, hfound h⟩, fun ⟨id, hid⟩ hempty => ?_⟩, hfound⟩
  have hwf := (cycleOf_eq_empty_iff horder hnamed).1 hempty
  exact hwf.transGen.irrefl.irrefl id hid

/-- Two operations that require each other. -/
def mutualGraph : GoMap (List String) := (∅ : GoMap (List String)).set "a" ["b"] |>.set "b" ["a"]

theorem dependencyCycle_correct_mutual :
    NamedGraph mutualGraph ∧ (cycleOf id mutualGraph ≠ "" ↔
      ∃ op, Relation.TransGen (Needs mutualGraph.slice) op op) := by
  have hnamed : NamedGraph mutualGraph := by
    intro id ids h
    unfold mutualGraph at h
    rw [GoMap.lookup_set, GoMap.lookup_set] at h
    split at h
    · cases h
      rename_i hid
      subst hid
      decide
    · split at h
      · cases h
        rename_i hid
        subst hid
        decide
      · cases h
  exact ⟨hnamed, (dependencyCycle_correct id (fun _ => .refl _) mutualGraph hnamed).2.1⟩

end FortigateDns
