import FortigateDns.Spec.Transport

/-!
# The retry discipline

* `retry_discipline`: **how often a request is sent, when it is repeated and when it succeeds**, for
  every behaviour of the transport.
-/

namespace FortigateDns.Transport

open List Bool

variable (x : Exchanger)

/-- **An exchange that completes a request**: a 2xx that was read completely and within the limit,
whose envelope passes and whose body, unless it is blank, is decoded if a result is expected. -/
def Exchanger.Completes : TransportResult → Prop
  | .networkError => False
  | .response resp =>
    resp.readErr = false ∧ resp.closeErr = false ∧ resp.raw.length ≤ x.maxResponseBytes ∧
      200 ≤ resp.statusCode ∧ resp.statusCode < 300 ∧ checkEnvelope x.codec x.method resp.raw = none ∧
      (x.expected = true → trimSpaceBytes resp.raw ≠ [] → x.codec.decodes resp.raw = true)

/-- **A failure that may pass.** -/
def Exchanger.MayPass : TransportResult → Prop
  | .networkError => True
  | .response resp =>
    resp.readErr = true ∨ resp.closeErr = true ∨ resp.statusCode = 429 ∨ 500 ≤ resp.statusCode ∨
      (200 ≤ resp.statusCode ∧ resp.statusCode < 300 ∧ (checkEnvelope x.codec x.method resp.raw).isSome = true ∧
        ∃ env, x.codec.envelope resp.raw = some env ∧ (env.httpStatus = 429 ∨ 500 ≤ env.httpStatus))

instance (result : TransportResult) : Decidable (x.Completes result) := by
  cases result <;> unfold Exchanger.Completes <;> infer_instance

/-- What one attempt does with the result of the transport. -/
structure AttemptSpec (result : TransportResult) (outcome : Attempt) : Prop where
  success : outcome = .done none ↔ x.Completes result
  again : ∀ err, outcome = .retry err → x.MayPass result ∧ x.method ≠ .post ∧ ¬ x.Completes result

/-- An error that goes through the gate is no success, and is tried again only if the gate is open. -/
theorem attemptSpec_gate {result : TransportResult} {retryable : Bool} {err : DoError}
    (hbad : ¬ x.Completes result) (hopen : retryable = true → x.MayPass result ∧ x.method ≠ .post) :
    AttemptSpec x result (gate retryable err) := by
  refine ⟨?_, fun e he => ?_⟩
  · unfold gate
    cases retryable <;> simp [hbad]
  · cases retryable with
    | false => cases he
    | true => exact ⟨(hopen rfl).1, (hopen rfl).2, hbad⟩

theorem transientStatus_iff (status : Int) : transientStatus status = true ↔ status = 429 ∨ 500 ≤ status := by
  simp [transientStatus]

theorem envelopeRetryable_iff (codec : BodyCodec) (raw : Bytes) : envelopeRetryable codec raw = true ↔
    ∃ env, codec.envelope raw = some env ∧ (env.httpStatus = 429 ∨ 500 ≤ env.httpStatus) := by
  unfold envelopeRetryable
  cases codec.envelope raw with
  | none => simp
  | some env => simp [transientStatus_iff]

/-- The case of a 2xx whose body was read. -/
theorem accept_spec {resp : Response} (hread : resp.readErr = false ∧ resp.closeErr = false)
    (hlen : resp.raw.length ≤ x.maxResponseBytes) (hok : 200 ≤ resp.statusCode ∧ resp.statusCode < 300) :
    AttemptSpec x (.response resp) (x.accept resp.raw) := by
  unfold Exchanger.accept
  cases henv : checkEnvelope x.codec x.method resp.raw with
  | none =>
    have hcompletes : x.Completes (.response resp) ↔
        (x.expected = true → trimSpaceBytes resp.raw ≠ [] → x.codec.decodes resp.raw = true) :=
      ⟨fun h => h.2.2.2.2.2.2, fun h => ⟨hread.1, hread.2, hlen, hok.1, hok.2, henv, h⟩⟩
    dsimp only
    by_cases hexp : (x.expected && trimSpaceBytes resp.raw ≠ []) = true
    · have hexp' : x.expected = true ∧ trimSpaceBytes resp.raw ≠ [] := by simpa using hexp
      rw [if_pos hexp]
      refine ⟨?_, by simp⟩
      rw [hcompletes]
      cases hdec : x.codec.decodes resp.raw with
      | true => simp
      | false => simp [hexp'.1, hexp'.2]
    · have hexp' : x.expected = true → trimSpaceBytes resp.raw = [] := by simpa using hexp
      rw [if_neg hexp]
      refine ⟨?_, by simp⟩
      rw [hcompletes]
      exact iff_of_true rfl fun he hne => absurd (hexp' he) hne
  | some err =>
    refine attemptSpec_gate x ?_ fun h => ?_
    · rintro ⟨-, -, -, -, -, hnone, -⟩
      rw [henv] at hnone
      cases hnone
    · obtain ⟨hmethod, hretry⟩ := (and_eq_true _ _).mp h
      have hfailed : (checkEnvelope x.codec x.method resp.raw).isSome = true := by rw [henv]; rfl
      have hmay : x.MayPass (.response resp) :=
        .inr (.inr (.inr (.inr ⟨hok.1, hok.2, hfailed, (envelopeRetryable_iff _ _).1 hretry⟩)))
      exact ⟨hmay, by simpa using hmethod⟩

/-- One attempt succeeds exactly after a good exchange, and asks for another one only after a
failure that may pass, and never for a POST. -/
theorem attempt_spec (result : TransportResult) : AttemptSpec x result (x.attempt result) := by
  cases result with
  | networkError => exact attemptSpec_gate x id fun h => ⟨trivial, by simpa using h⟩
  | response resp =>
    unfold Exchanger.attempt
    dsimp only
    split_ifs with hover hread hok
    · -- an oversized body is final
      have hbad : ¬ x.Completes (.response resp) := by
        rintro ⟨-, -, hlen, -⟩
        simp only [and_eq_true, decide_eq_true_eq] at hover
        omega
      exact ⟨by simp [hbad], by simp⟩
    · have hmay : x.MayPass (.response resp) := by
        rcases (or_eq_true _ _).mp hread with h | h
        · exact .inl h
        · exact .inr (.inl h)
      refine attemptSpec_gate x ?_ fun h => ⟨hmay, by simpa using h⟩
      rintro ⟨hr, hc, -⟩
      simp [hr, hc] at hread
    · have hclean : resp.readErr = false ∧ resp.closeErr = false := by simpa using hread
      have hlen : resp.raw.length ≤ x.maxResponseBytes := by simpa [hclean.1] using hover
      exact accept_spec x hclean hlen hok
    · refine attemptSpec_gate x ?_ fun h => ?_
      · rintro ⟨-, -, -, hlow, hhigh, -⟩
        exact hok ⟨hlow, hhigh⟩
      · obtain ⟨hmethod, hstatus⟩ := (and_eq_true _ _).mp h
        have hmay : x.MayPass (.response resp) := by
          rcases (transientStatus_iff _).1 hstatus with h429 | h500
          · exact .inr (.inr (.inl h429))
          · exact .inr (.inr (.inr (.inl h500)))
        exact ⟨hmay, by simpa using hmethod⟩

variable {x} {env : Environment}

/-- What a run of the loop with `left` attempts left sends and returns. -/
structure RunSpec (x : Exchanger) (env : Environment) (left attempt : Nat) (outcome : Outcome) : Prop where
  sequence : outcome.sent = (List.range outcome.sent.length).map fun i => env.exchange (attempt + i)
  bound : outcome.sent.length ≤ left
  repeated : ∀ result ∈ outcome.sent.dropLast, x.MayPass result ∧ x.method ≠ .post ∧ ¬ x.Completes result
  success : outcome.sent ≠ [] → (outcome.err = none ↔ ∃ last ∈ outcome.sent.getLast?, x.Completes last)
  failure : outcome.sent = [] → outcome.err = none → left = 0

theorem runSpec_single {left attempt : Nat} {err : Option DoError} (hleft : 0 < left)
    (h : err = none ↔ x.Completes (env.exchange attempt)) :
    RunSpec x env left attempt ⟨err, [env.exchange attempt]⟩ where
  sequence := by simp
  bound := hleft
  repeated := by simp
  success _ := by simpa using h
  failure := by simp

/-- Induction on the attempts left; the error of the attempt before is never a success. -/
theorem loop_spec (left : Nat) : ∀ (attempt : Nat) (lastErr : Option DoError),
    RunSpec x env left attempt (x.loop env left attempt lastErr) := by
  induction left with
  | zero => exact fun attempt lastErr =>
    ⟨rfl, le_refl _, by simp [Exchanger.loop], by simp [Exchanger.loop], fun _ _ => rfl⟩
  | succ left ih =>
    intro attempt lastErr
    have hspec := attempt_spec x (env.exchange attempt)
    unfold Exchanger.loop
    by_cases hrewind : 0 < attempt ∧ env.rewindErr attempt = true
    · rw [if_pos hrewind]
      exact ⟨rfl, Nat.zero_le _, by simp, by simp, by simp⟩
    · rw [if_neg hrewind]
      dsimp only
      cases hattempt : x.attempt (env.exchange attempt) with
      | done err =>
        rw [hattempt] at hspec
        exact runSpec_single (Nat.succ_pos _) (by simpa using hspec.success)
      | retry err =>
        rw [hattempt] at hspec
        obtain ⟨hmay, hpost, hbad⟩ := hspec.again err rfl
        dsimp only
        by_cases hcanceled : 0 < left ∧ env.canceled attempt = true
        · rw [if_pos hcanceled]
          exact runSpec_single (Nat.succ_pos _) (by simp [hbad])
        · rw [if_neg hcanceled]
          have hrest := ih (attempt + 1) (some err)
          set rest := x.loop env left (attempt + 1) (some err) with hdef
          refine ⟨?_, Nat.succ_le_succ hrest.bound, ?_, fun _ => ?_, by simp⟩
          · rw [length_cons, range_succ_eq_map, map_cons, map_map]
            refine congrArg₂ _ rfl ?_
            rw [hrest.sequence]
            simp only [length_map, length_range]
            refine map_congr_left fun i _ => ?_
            simp only [Function.comp_apply]
            congr 1
            omega
          · intro result hresult
            cases hsent : rest.sent with
            | nil => simp [hsent] at hresult
            | cons next later =>
              dsimp only at hresult
              rw [hsent, dropLast_cons_of_ne_nil (by simp)] at hresult
              rcases mem_cons.1 hresult with rfl | hlater
              · exact ⟨hmay, hpost, hbad⟩
              · exact hrest.repeated result (by rw [hsent]; exact hlater)
          · cases hsent : rest.sent with
            | nil =>
              -- nothing more was sent: no attempt was left, and the error of this one is returned
              have herr : rest.err ≠ none := by
                intro hnone
                have hzero := hrest.failure hsent hnone
                rw [hdef, hzero] at hnone
                cases hnone
              simp [herr, hbad]
            | cons next later =>
              have hsuccess := hrest.success (by simp [hsent])
              dsimp only
              rw [hsuccess, hsent, getLast?_cons_cons]

/-- **The retry discipline**: a POST is sent once and any other request at most `retries + 1` times; it is
sent again only after a failure that may pass, and never after an exchange that completes it; and it succeeds
if and only if the last exchange completes it. -/
theorem retry_discipline (x : Exchanger) (retries : Nat) (env : Environment) :
    (x.method = .post → (x.doJSON retries env).sent.length = 1) ∧
      1 ≤ (x.doJSON retries env).sent.length ∧ (x.doJSON retries env).sent.length ≤ retries + 1 ∧
      (x.doJSON retries env).sent = (List.range (x.doJSON retries env).sent.length).map env.exchange ∧
      (∀ result ∈ (x.doJSON retries env).sent.dropLast, x.MayPass result ∧ ¬ x.Completes result) ∧
      ((x.doJSON retries env).err = none ↔ ∃ last ∈ (x.doJSON retries env).sent.getLast?, x.Completes last) := by
  have hspec : RunSpec x env (retries + 1) 0 (x.doJSON retries env) := loop_spec (retries + 1) 0 none
  have hne : (x.doJSON retries env).sent ≠ [] := by
    unfold Exchanger.doJSON Exchanger.loop
    rw [if_neg (by simp)]
    dsimp only
    split
    · simp
    · split <;> simp
  have hone : 1 ≤ (x.doJSON retries env).sent.length := length_pos_iff.2 hne
  refine ⟨fun hpost => ?_, hone, hspec.bound, ?_, fun result hresult => ?_, hspec.success hne⟩
  · -- a second exchange would have been a repetition of a POST
    by_contra hmany
    have hdrop : (x.doJSON retries env).sent.dropLast ≠ [] := by
      rw [← length_pos_iff, length_dropLast]
      omega
    obtain ⟨result, hresult⟩ := exists_mem_of_ne_nil _ hdrop
    exact (hspec.repeated result hresult).2.1 hpost
  · conv_lhs => rw [hspec.sequence]
    simp only [Nat.zero_add]
  · obtain ⟨hmay, -, hbad⟩ := hspec.repeated result hresult
    exact ⟨hmay, hbad⟩

/-- A body codec that reads no envelope and decodes nothing. -/
def mute : BodyCodec where
  envelope _ := none
  decodes _ := false

/-- A GET of a caller that expects a result. -/
def reader : Exchanger where
  codec := mute
  maxResponseBytes := 8
  method := .get
  expected := true

/-- A 503 and then a 200, both without a body. -/
def recovering : Environment where
  exchange i := .response { statusCode := if i = 0 then 503 else 200, raw := [] }

theorem retry_discipline_recovering :
    (reader.doJSON 3 recovering).sent.length = 2 ∧ (reader.doJSON 3 recovering).err = none ∧
      ∃ last ∈ (reader.doJSON 3 recovering).sent.getLast?, reader.Completes last := by
  obtain ⟨-, -, -, -, -, hsuccess⟩ := retry_discipline reader 3 recovering
  have herr : (reader.doJSON 3 recovering).err = none := by decide +kernel
  exact ⟨by decide +kernel, herr, hsuccess.1 herr⟩

/-- A blank 2xx completes a request though its body does not decode. -/
theorem blank_body_succeeds :
    reader.expected = true ∧ (reader.doJSON 0
      ⟨fun _ => .response ⟨200, [], false, false⟩, fun _ => false, fun _ => false⟩).err = none ∧
      reader.codec.decodes [] = false := by
  decide +kernel

end FortigateDns.Transport
