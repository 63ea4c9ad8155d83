import FortigateDns.Spec.Listing

/-!
# A listing is complete

The server decides every page, so nothing is assumed about the pages. What has been collected is
described by the list of the pages read so far (`Collected`), one turn of the loop appends one page
to it (`turn_ok`), and every turn that does not end the loop brings at least one row.
-/

namespace FortigateDns

open Go List Option

variable {st next : ListState}

/-- **A numeric ID up to `2 ^ 53` is read as it is written.** -/
theorem scalarRecordID_exact {n : Int} (h : n.natAbs ≤ 2 ^ 53) :
    (IDValue.ofNumber n 0).map scalarRecordID = some (toString n) := by
  unfold IDValue.ofNumber
  rw [Float64.ofDecimal_exact h, map_some, map_some]
  unfold scalarRecordID
  dsimp only
  rw [Float64.toInt64_ofInt h, if_neg (not_not.2 rfl)]

/-- The next number is read as its neighbour. -/
example : (IDValue.ofNumber 9007199254740993 0).map scalarRecordID = some "9007199254740992" := by decide +kernel

/-- A number beyond `int64` is read as no ID. -/
example : (IDValue.ofNumber 9223372036854775808 0).map scalarRecordID = some "" := by decide +kernel

theorem collectRows_ok {seen ids : List String} {rows : List ListedRecord} (h : collectRows seen rows = .ok ids) :
    ids = seen ++ rows.map ListedRecord.providerID ∧ (seen.Nodup → ids.Nodup) ∧
      ∀ r ∈ rows, providerIDPattern r.providerID = true := by
  induction rows generalizing seen with
  | nil =>
    obtain rfl := Except.ok.inj h
    simp
  | cons r rows ih =>
    rw [collectRows] at h
    split_ifs at h with hempty hpattern hseen
    obtain ⟨hids, hnodup, hall⟩ := ih h
    refine ⟨by simpa using hids, fun hn => hnodup ?_, ?_⟩
    · exact nodup_append'.2 ⟨hn, nodup_singleton _, by simpa using hseen⟩
    · intro r' hr'
      rcases mem_cons.1 hr' with rfl | hr'
      · simpa using hpattern
      · exact hall r' hr'

/-- What a page passes before it is collected. -/
structure PageOK (st : ListState) (page : FortiResponse) (next : ListState) : Prop where
  size : page.size = some next.total
  nonneg : 0 ≤ next.total
  total : st.total = -1 ∨ next.total = st.total
  matched : ∀ n ∈ page.matchedCount, n = page.results.length
  revised : st.pages ≠ 0 → page.pageRevision ≠ "" ∧ page.pageRevision = st.revision
  rows : collectRows st.seenProviderIDs page.results = .ok next.seenProviderIDs
  records : next.records = st.records ++ page.results
  start : next.start = st.start
  revision : next.revision = page.pageRevision
  pages : next.pages = st.pages + 1

theorem readPage_ok {page : FortiResponse} (h : st.readPage page = .ok next) : PageOK st page next := by
  unfold ListState.readPage at h
  cases hsize : page.size with
  | none => simp [hsize] at h
  | some size =>
    simp only [hsize] at h
    split_ifs at h with hneg hchanged hmatched hmissing hrevision
    cases hrows : collectRows st.seenProviderIDs page.results with
    | error err => simp [hrows] at h
    | ok seen =>
      simp only [hrows, Except.ok.injEq] at h
      subst h
      have hrevised : st.pages ≠ 0 → page.pageRevision ≠ "" ∧ page.pageRevision = st.revision := by
        intro hpages
        constructor
        · intro hempty
          exact hmissing ⟨hpages, .inl hempty⟩
        · by_contra hne
          exact hrevision ⟨hpages, hne⟩
      have htotal : st.total = -1 ∨ size = st.total := by omega
      refine ⟨hsize, not_lt.1 hneg, htotal, ?_, hrevised, hrows, rfl, rfl, ?_, rfl⟩
      · intro n hn
        rw [Option.mem_def.1 hn] at hmatched
        simpa using hmatched
      · show st.nextRevision page = page.pageRevision
        unfold ListState.nextRevision
        split
        case isTrue => rfl
        case isFalse hpages => exact (hrevised hpages).2.symm

/-- A turn of the loop that does not fail reads a page; it ends the loop if the rows are as many
as announced, and brings a row otherwise. -/
theorem turn_ok {answer : Except ClientError FortiResponse} {complete : Bool}
    (h : st.turn answer = .ok (next, complete)) :
    ∃ page read, answer = .ok page ∧ PageOK st page read ∧
      (complete = true ∧ next = read ∧ read.records.length = read.total ∨
        complete = false ∧ next = { read with start := read.start + page.results.length } ∧
          read.records.length < read.total ∧ 0 < page.results.length) := by
  unfold ListState.turn at h
  cases answer with
  | error err => simp at h
  | ok page =>
    cases hread : st.readPage page with
    | error err => simp [hread] at h
    | ok read =>
      simp only [hread] at h
      split_ifs at h with hover hdone hnone
      · obtain ⟨rfl, rfl⟩ := Prod.mk.inj (Except.ok.inj h)
        exact ⟨page, read, rfl, readPage_ok hread, .inl ⟨rfl, rfl, hdone⟩⟩
      · obtain ⟨rfl, rfl⟩ := Prod.mk.inj (Except.ok.inj h)
        exact ⟨page, read, rfl, readPage_ok hread, .inr ⟨rfl, rfl, by omega, length_pos_iff.2 hnone⟩⟩

/-- The rows of a list of pages. -/
def pageRows (pages : List FortiResponse) : List ListedRecord := pages.flatMap FortiResponse.results

theorem pageRows_append (pages : List FortiResponse) (page : FortiResponse) :
    pageRows (pages ++ [page]) = pageRows pages ++ page.results := by
  simp [pageRows]

/-- **Pages that make up one snapshot** of `total` rows under one revision, as the answers to the first
requests. -/
structure Consistent (answer : Nat → Except ClientError FortiResponse) (pages : List FortiResponse) (total : Int)
    (revision : String) : Prop where
  answers : (List.range pages.length).map answer = pages.map .ok
  sizes : ∀ page ∈ pages, page.size = some total
  matched : ∀ page ∈ pages, ∀ n ∈ page.matchedCount, n = page.results.length
  numeric : ∀ r ∈ pageRows pages, providerIDPattern r.providerID = true
  distinct : ((pageRows pages).map ListedRecord.providerID).Nodup
  revisions : ∀ page ∈ pages, page.pageRevision = revision
  stable : 1 < pages.length → revision ≠ ""

/-- The variables of the loop after some pages. -/
structure Collected (answer : Nat → Except ClientError FortiResponse) (pages : List FortiResponse)
    (st : ListState) :
    Prop where
  consistent : Consistent answer pages st.total st.revision
  count : st.pages = pages.length
  records : st.records = pageRows pages
  seen : st.seenProviderIDs = (pageRows pages).map ListedRecord.providerID
  fresh : pages = [] → st.total = -1
  nonneg : pages ≠ [] → 0 ≤ st.total

variable {answer : Nat → Except ClientError FortiResponse}

theorem collected_start (answer : Nat → Except ClientError FortiResponse) : Collected answer [] {} where
  consistent := {
    answers := rfl
    sizes := by simp
    matched := by simp
    numeric := by simp [pageRows]
    distinct := by simp [pageRows]
    revisions := by simp
    stable := by simp }
  count := rfl
  records := rfl
  seen := rfl
  fresh _ := rfl
  nonneg h := absurd rfl h

/-- A page that passes is one more page of the snapshot. -/
theorem Collected.page {pages : List FortiResponse} (h : Collected answer pages st) {page : FortiResponse}
    (hpage : PageOK st page next) (hanswer : answer st.pages = .ok page) :
    Collected answer (pages ++ [page]) next := by
  obtain ⟨hids, hnodup, hnumeric⟩ := collectRows_ok hpage.rows
  -- with pages behind it, the page repeats their size and their revision
  have hsame : ∀ p ∈ pages, next.total = st.total ∧ next.revision = st.revision ∧ st.revision ≠ "" := by
    intro p hp
    have hne : pages ≠ [] := ne_nil_of_mem hp
    have hcount : st.pages ≠ 0 := by
      rw [h.count]
      exact fun h0 => hne (length_eq_zero_iff.1 h0)
    obtain ⟨hrev, heq⟩ := hpage.revised hcount
    have hnonneg := h.nonneg hne
    refine ⟨by rcases hpage.total with hfresh | hsame <;> omega, hpage.revision.trans heq, ?_⟩
    rw [← heq]
    exact hrev
  refine ⟨⟨?_, ?_, ?_, ?_, ?_, ?_, ?_⟩, ?_, ?_, ?_, by simp, fun _ => hpage.nonneg⟩
  · rw [length_append, length_singleton, range_succ, map_append, map_append,
      h.consistent.answers, map_singleton, map_singleton, ← h.count, hanswer]
  · intro p hp
    rcases mem_append.1 hp with hp | hp
    · rw [(hsame p hp).1]
      exact h.consistent.sizes p hp
    · rw [mem_singleton.1 hp]
      exact hpage.size
  · intro p hp
    rcases mem_append.1 hp with hp | hp
    · exact h.consistent.matched p hp
    · rw [mem_singleton.1 hp]
      exact hpage.matched
  · rw [pageRows_append]
    intro r hr
    rcases mem_append.1 hr with hr | hr
    · exact h.consistent.numeric r hr
    · exact hnumeric r hr
  · have hseen : st.seenProviderIDs.Nodup := by
      rw [h.seen]
      exact h.consistent.distinct
    rw [pageRows_append, map_append, ← h.seen, ← hids]
    exact hnodup hseen
  · intro p hp
    rcases mem_append.1 hp with hp | hp
    · rw [(hsame p hp).2.1]
      exact h.consistent.revisions p hp
    · rw [mem_singleton.1 hp]
      exact hpage.revision.symm
  · intro hmany
    obtain ⟨p, hp⟩ : ∃ p, p ∈ pages := exists_mem_of_length_pos (by simpa using hmany)
    rw [(hsame p hp).2.1]
    exact (hsame p hp).2.2
  · rw [hpage.pages, h.count, length_append, length_singleton]
  · rw [hpage.records, h.records, pageRows_append]
  · rw [hids, h.seen, pageRows_append, map_append]

/-- The number of rows that the first page announces, and at least 1. -/
def announced (answer : Nat → Except ClientError FortiResponse) : Nat :=
  match answer 0 with
  | .ok page => max 1 (page.size.getD 0).toNat
  | .error _ => 1

/-- How many page requests may still come. -/
def remaining (answer : Nat → Except ClientError FortiResponse) (pages : List FortiResponse)
    (st : ListState) : Nat :=
  if pages = [] then announced answer else st.total.toNat - st.records.length

/-- The `start` of the requests for some pages: the number of rows before each. -/
def startsOf (pages : List FortiResponse) : List Nat :=
  (List.range pages.length).map fun i => (pageRows (pages.take i)).length

theorem startsOf_append (pages : List FortiResponse) (page : FortiResponse) :
    startsOf (pages ++ [page]) = startsOf pages ++ [(pageRows pages).length] := by
  unfold startsOf
  rw [length_append, length_singleton, range_succ, map_append, map_singleton,
    take_left' rfl]
  congr 1
  refine map_congr_left fun i hi => ?_
  rw [take_append_of_le_length (List.mem_range.1 hi).le]

/-- **A complete snapshot**: the pages hold exactly the rows that each of them announced, and each was
requested from the number of rows before it. -/
structure PagedSnapshot (answer : Nat → Except ClientError FortiResponse) (requests : List Nat)
    (records : List ListedRecord) : Prop where
  pages : ∃ pages total revision, Consistent answer pages total revision ∧ 0 ≤ total ∧ requests = startsOf pages ∧
    records = pageRows pages ∧ records.length = total

/-- From any state on the way the loop ends within its bound. -/
theorem listLoop_spec {pages : List FortiResponse} (h : Collected answer pages st)
    (hstart : st.start = st.records.length) (hmore : pages ≠ [] → st.records.length < st.total) {fuel : Nat}
    (hfuel : remaining answer pages st ≤ fuel) :
    (listLoop answer fuel st).outcome.isSome = true ∧
      (listLoop answer fuel st).requests.length ≤ remaining answer pages st ∧
      ∀ records, (listLoop answer fuel st).outcome = some (.ok records) →
        PagedSnapshot answer (startsOf pages ++ (listLoop answer fuel st).requests) records := by
  have hpos : 1 ≤ remaining answer pages st := by
    unfold remaining announced
    split_ifs with hpages
    · split <;> omega
    · have := hmore hpages
      omega
  induction fuel generalizing pages st with
  | zero => omega
  | succ fuel ih =>
    unfold listLoop
    cases hturn : st.turn (answer st.pages) with
    | error err => exact ⟨rfl, hpos, by simp⟩
    | ok result =>
      obtain ⟨next, complete⟩ := result
      obtain ⟨page, read, hanswer, hpage, hcase⟩ := turn_ok hturn
      have hread : Collected answer (pages ++ [page]) read := h.page hpage hanswer
      have hlength : read.records.length = st.records.length + page.results.length := by
        rw [hpage.records, length_append]
      rcases hcase with ⟨rfl, rfl, hdone⟩ | ⟨rfl, rfl, hless, hrow⟩
      · refine ⟨rfl, hpos, fun records hrecords => ⟨pages ++ [page], next.total, next.revision, hread.consistent,
          hpage.nonneg, ?_, ?_, ?_⟩⟩
        · rw [startsOf_append, ← h.records, ← hstart]
        · rw [← Except.ok.inj (some.inj hrecords)]
          exact hread.records
        · rw [← Except.ok.inj (some.inj hrecords)]
          exact hdone
      · -- the next state has one row more and so one request less ahead of it
        have hnext : Collected answer (pages ++ [page]) { read with start := read.start + page.results.length } :=
          ⟨hread.consistent, hread.count, hread.records, hread.seen, hread.fresh, hread.nonneg⟩
        have hless' : remaining answer (pages ++ [page])
          { read with start := read.start + page.results.length } + 1 ≤
            remaining answer pages st := by
          have hnonempty : pages ++ [page] ≠ [] := by simp
          unfold remaining
          rw [if_neg hnonempty]
          dsimp only
          split_ifs with hpages
          · have hzero : st.pages = 0 := by rw [h.count, hpages, length_nil]
            unfold announced
            rw [hzero] at hanswer
            rw [hanswer]
            simp only [hpage.size, getD_some]
            omega
          · have hne := hmore hpages
            have hnonneg := h.nonneg hpages
            have htotal : read.total = st.total := by rcases hpage.total with hfresh | hsame <;> omega
            omega
        have hpos' : 1 ≤ remaining answer (pages ++ [page])
          { read with start := read.start + page.results.length } := by
          have hnonempty : pages ++ [page] ≠ [] := by simp
          unfold remaining
          rw [if_neg hnonempty]
          dsimp only
          omega
        obtain ⟨hsome, hcount, hsnapshot⟩ := ih hnext (by dsimp only; rw [hpage.start, hstart, hlength])
          (fun _ => hless) (by omega) hpos'
        refine ⟨hsome, ?_, fun records hrecords => ?_⟩
        · rw [length_cons]
          omega
        · have hs := hsnapshot records hrecords
          rwa [startsOf_append, ← h.records, ← hstart, append_assoc] at hs

/-- **A successful listing is a complete consistent snapshot**, and every listing ends. -/
theorem listing_complete (answer : Nat → Except ClientError FortiResponse) (zone : String) (fuel : Nat)
    (hfuel : announced answer ≤ fuel) :
    (listRecords answer zone fuel).outcome.isSome = true ∧
      (listRecords answer zone fuel).requests.length ≤ announced answer ∧
      ∀ endpoints, (listRecords answer zone fuel).outcome = some (.ok endpoints) →
        ∃ records, PagedSnapshot answer (listRecords answer zone fuel).requests records ∧
          endpoints = decodeRecords zone records := by
  obtain ⟨hsome, hcount, hsnapshot⟩ := listLoop_spec (collected_start answer) rfl (fun h => absurd rfl h) hfuel
  refine ⟨by simpa [listRecords] using hsome, hcount, fun endpoints hendpoints => ?_⟩
  obtain ⟨result, hresult, hmap⟩ := Option.map_eq_some_iff.1 hendpoints
  cases result with
  | error err => cases hmap
  | ok records =>
    have hs := hsnapshot records hresult
    exact ⟨records, hs, (Except.ok.inj hmap).symm⟩

/-- Two pages of one row each, and a third that is never asked for. -/
def twoPages (i : Nat) : Except ClientError FortiResponse :=
  match i with
  | 0 => .ok
      { results := [{ hostname := "a", type := "A", ip := "192.0.2.1", ttl := 60, mkey := .number (.ofInt 1) }]
        size := some 2, matchedCount := some 1, revision := some "r7" }
  | 1 => .ok { results := [{ hostname := "b", type := "A", ip := "192.0.2.2", ttl := 60, id := .text "2" }]
               size := some 2, revision := some "r7 " }
  | _ => .error .requestFailed

theorem listing_complete_two :
    (listRecords twoPages "example.com" 2).requests = [0, 1] ∧
      ∃ endpoints records, (listRecords twoPages "example.com" 2).outcome = some (.ok endpoints) ∧
        endpoints.map Endpoint.dnsName = ["a.example.com", "b.example.com"] ∧
        PagedSnapshot twoPages [0, 1] records ∧ endpoints = decodeRecords "example.com" records := by
  have hrequests : (listRecords twoPages "example.com" 2).requests = [0, 1] := by decide +kernel
  have hnames : ((listRecords twoPages "example.com" 2).outcome.bind Except.toOption).map
    (List.map Endpoint.dnsName) =
      some ["a.example.com", "b.example.com"] := by decide +kernel
  have hcomplete := listing_complete twoPages "example.com" 2 (by decide +kernel)
  rw [hrequests] at hcomplete
  refine ⟨hrequests, ?_⟩
  cases hout : (listRecords twoPages "example.com" 2).outcome with
  | none => rw [hout] at hnames; cases hnames
  | some result =>
    cases result with
    | error err => rw [hout] at hnames; cases hnames
    | ok endpoints =>
      obtain ⟨records, hsnapshot, hdecoded⟩ := hcomplete.2.2 endpoints hout
      rw [hout] at hnames
      exact ⟨endpoints, records, rfl, some.inj hnames, hsnapshot, hdecoded⟩

end FortigateDns
