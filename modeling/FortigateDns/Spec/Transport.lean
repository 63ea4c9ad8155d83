import FortigateDns.Spec.Client

/-!
# Requests over HTTP

`internal/fortigate/client.go`: `doJSON` sends one request, and sends it again after failures that
may pass. The results of the transport and the cancellations during the waits are inputs, by the
number of the attempt. Bodies are bytes; reading an envelope or a result from them is a parameter
(`BodyCodec`). How long a wait takes is left out: it decides nothing here.
-/

namespace FortigateDns.Transport

open Go

/-- The bytes of a body. -/
abbrev Bytes := List UInt8

/-- The UTF-8 forms of `unicode.IsSpace`. -/
def spaceForms : List Bytes :=
  [[0x09], [0x0a], [0x0b], [0x0c], [0x0d], [0x20], [0xc2, 0x85], [0xc2, 0xa0], [0xe1, 0x9a, 0x80],
    [0xe2, 0x80, 0x80], [0xe2, 0x80, 0x81], [0xe2, 0x80, 0x82], [0xe2, 0x80, 0x83], [0xe2, 0x80, 0x84],
    [0xe2, 0x80, 0x85], [0xe2, 0x80, 0x86], [0xe2, 0x80, 0x87], [0xe2, 0x80, 0x88], [0xe2, 0x80, 0x89],
    [0xe2, 0x80, 0x8a], [0xe2, 0x80, 0xa8], [0xe2, 0x80, 0xa9], [0xe2, 0x80, 0xaf], [0xe2, 0x81, 0x9f],
    [0xe3, 0x80, 0x80]]

/-- Strips forms from the left, at most `fuel` of them. -/
def stripForms (forms : List Bytes) : Nat → Bytes → Bytes
  | 0, raw => raw
  | fuel + 1, raw =>
    match forms.find? fun form => form.isPrefixOf raw with
    | some form => stripForms forms fuel (raw.drop form.length)
    | none => raw

/-- `bytes.TrimSpace`. -/
def trimSpaceBytes (raw : Bytes) : Bytes :=
  let left := stripForms spaceForms raw.length raw
  (stripForms (spaceForms.map List.reverse) left.length left.reverse).reverse

/-- `fortiEnvelope`, the fields that are read. -/
structure FortiEnvelope where
  status : String := ""
  httpStatus : Int := 0
  error : Option Int := none
  deriving DecidableEq, Repr

/-- `json.Unmarshal` into an envelope, and whether it succeeds into the result of the caller. -/
structure BodyCodec where
  envelope : Bytes → Option FortiEnvelope
  decodes : Bytes → Bool

/-- The methods of the requests. -/
inductive Method
  | get | post | put | delete
  deriving DecidableEq, Repr

/-- A response: its status, what `io.ReadAll` returned of its body, and the failures of reading and closing it. -/
structure Response where
  statusCode : Int
  raw : Bytes
  readErr : Bool := false
  closeErr : Bool := false
  deriving DecidableEq, Repr

/-- What `httpClient.Do` returns. -/
inductive TransportResult
  | networkError
  | response (resp : Response)
  deriving DecidableEq, Repr

/-- The errors of `checkEnvelope`. -/
inductive EnvelopeError
  | nonObject
  | invalid
  | status (status : String) (httpStatus : Int)
  | httpStatus (httpStatus : Int)
  | code (code : Int)
  deriving DecidableEq, Repr

/-- The errors of `doJSON`. -/
inductive DoError
  | network
  | read
  | close
  | oversized (maxResponseBytes : Nat)
  | envelope (err : EnvelopeError)
  | status (statusCode : Int)
  | decode
  | rewind
  | canceled
  deriving DecidableEq, Repr

/-- Answers to mutations have to be objects. -/
def checkEnvelope (codec : BodyCodec) (method : Method) (raw : Bytes) : Option EnvelopeError :=
  let trimmed := trimSpaceBytes raw
  if trimmed = [] then none
  else
    let mutation := method ≠ .get
    if mutation ∧ trimmed.head? ≠ some 0x7b then some .nonObject
    else
      match codec.envelope raw with
      | none => if mutation then some .invalid else none
      | some env =>
        if env.status ≠ "" ∧ !equalFold env.status "success" then some (.status env.status env.httpStatus)
        else if env.httpStatus ≠ 0 ∧ (env.httpStatus < 200 ∨ 300 ≤ env.httpStatus) then some
          (.httpStatus env.httpStatus)
        else if env.error.any (· ≠ 0) then some (.code (env.error.getD 0))
        else none

/-- A status after which a request is worth repeating. -/
def transientStatus (status : Int) : Bool := status == 429 || 500 ≤ status

/-- The status inside the envelope is transient. -/
def envelopeRetryable (codec : BodyCodec) (raw : Bytes) : Bool :=
  match codec.envelope raw with
  | none => false
  | some env => transientStatus env.httpStatus

/-- What a request is sent with: `expected` says that the caller wants a result (`out != nil`). -/
structure Exchanger where
  codec : BodyCodec
  maxResponseBytes : Nat
  method : Method
  expected : Bool

/-- How one attempt ends: with the result of the request, or with an error that may pass. -/
inductive Attempt
  | done (err : Option DoError)
  | retry (err : DoError)
  deriving DecidableEq, Repr

/-- An error that ends the request unless it is worth repeating and may be repeated. -/
def gate (retryable : Bool) (err : DoError) : Attempt := if retryable then .retry err else .done (some err)

/-- The first failure of reading and closing a body. -/
def Response.bodyErr (resp : Response) : DoError := if resp.readErr then .read else .close

/-- The case of a 2xx whose body was read. -/
def Exchanger.accept (x : Exchanger) (raw : Bytes) : Attempt :=
  match checkEnvelope x.codec x.method raw with
  | none =>
    if x.expected && trimSpaceBytes raw ≠ [] then .done (if x.codec.decodes raw then none else some .decode)
    else .done none
  | some err => gate (x.method ≠ .post && envelopeRetryable x.codec raw) (.envelope err)

/-- One attempt of the loop of `doJSON`, up to the wait. -/
def Exchanger.attempt (x : Exchanger) (result : TransportResult) : Attempt :=
  match result with
  | .networkError => gate (x.method ≠ .post) .network
  | .response resp =>
    if !resp.readErr && x.maxResponseBytes < resp.raw.length then .done (some (.oversized x.maxResponseBytes))
    else if resp.readErr || resp.closeErr then gate (x.method ≠ .post) resp.bodyErr
    else if 200 ≤ resp.statusCode ∧ resp.statusCode < 300 then x.accept resp.raw
    else gate (x.method ≠ .post && transientStatus resp.statusCode) (.status resp.statusCode)

/-- What is decided outside: the results of the transport, whether the body can be read again, and
whether the context is canceled during the wait after an attempt. -/
structure Environment where
  exchange : Nat → TransportResult
  rewindErr : Nat → Bool := fun _ => false
  canceled : Nat → Bool := fun _ => false

/-- How a request ends, and the exchanges that were sent for it. -/
structure Outcome where
  err : Option DoError
  sent : List TransportResult
  deriving DecidableEq, Repr

/-- The loop of `doJSON` with some attempts left; `attempt` counts them from 0, and `lastErr` is the
error of the one before. -/
def Exchanger.loop (x : Exchanger) (env : Environment) : Nat → Nat → Option DoError → Outcome
  | 0, _, lastErr => ⟨lastErr, []⟩
  | left + 1, attempt, _ =>
    if 0 < attempt ∧ env.rewindErr attempt then ⟨some .rewind, []⟩
    else
      let result := env.exchange attempt
      match x.attempt result with
      | .done err => ⟨err, [result]⟩
      | .retry err =>
        if 0 < left ∧ env.canceled attempt then ⟨some .canceled, [result]⟩
        else
          let rest := x.loop env left (attempt + 1) (some err)
          ⟨rest.err, result :: rest.sent⟩

/-- One attempt more than there are retries. -/
def Exchanger.doJSON (x : Exchanger) (retries : Nat) (env : Environment) : Outcome :=
  x.loop env (retries + 1) 0 none

end FortigateDns.Transport
