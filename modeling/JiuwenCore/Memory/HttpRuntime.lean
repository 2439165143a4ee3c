import JiuwenCore.Config.AgentConfig
import JiuwenCore.Lib.Runs
import JiuwenCore.Models.Transport

/-!
# The memory server and its circuit breaker

`HttpPost` and `HttpGet` of `HttpMemoryRuntime`. Both retry transient failures, count the
calls that fail in a row, and send nothing for a while after too many of them; they share
one counter and one deadline. A call is given what its transfers will answer, and the
readings of the clock.
-/

namespace JiuwenCore.HttpMemory

open Config (MemoryConfig)
open Models (CurlResponse isRetryableCurlError isRetryableHttpStatus)

/-! ## Requests and responses -/

structure CurlRequest where
  url : Str
  headers : List Str
  body : Str := []
  connectTimeout : Int32
  requestTimeout : Int32
  deriving DecidableEq, Repr

structure HttpResponse where
  status : Nat
  body : Str
  isRetryable : Bool := false
  isCurlError : Bool := false
  deriving DecidableEq, Repr

/-- The constants of a `HttpMemoryRuntime`. -/
structure Runtime where
  serverUrl : Str
  apiKey : Str
  timeoutSeconds : Int32
  maxRetries : Int32
  circuitThreshold : Int32
  circuitCooldownMs : Int32
  deriving DecidableEq, Repr

def Runtime.ofConfig (config : MemoryConfig) : Runtime where
  serverUrl :=
    if config.serverUrl.getLast? = some 47 then config.serverUrl.dropLast else config.serverUrl
  apiKey := config.serverApiKey
  timeoutSeconds := config.serverTimeoutSeconds
  maxRetries := config.serverMaxRetries
  circuitThreshold := config.serverCircuitThreshold
  circuitCooldownMs := config.serverCircuitCooldownSeconds * 1000

def Runtime.authorization (r : Runtime) : List Str :=
  if r.apiKey = [] then [] else [lit "Authorization: Bearer " ++ r.apiKey]

/-- The request of `DoHttpPostOnce`. -/
def Runtime.postRequest (r : Runtime) (path jsonBody : Str) : CurlRequest where
  url := r.serverUrl ++ path
  headers :=
    [lit "Content-Type: application/json", lit "Accept: application/json"] ++ r.authorization
  body := jsonBody
  connectTimeout := r.timeoutSeconds
  requestTimeout := r.timeoutSeconds

/-- The request of `DoHttpGetOnce`. -/
def Runtime.getRequest (r : Runtime) (path : Str) : CurlRequest where
  url := r.serverUrl ++ path
  headers := [lit "Accept: application/json"] ++ r.authorization
  connectTimeout := r.timeoutSeconds
  requestTimeout := r.timeoutSeconds

/-- A transfer: when its request is sent, and what comes back. -/
structure Exchange where
  sentAt : Int
  response : CurlResponse
  body : Str := []

/-- What `DoHttpPostOnce` and `DoHttpGetOnce` make of a transfer. -/
def Exchange.httpResponse (e : Exchange) : HttpResponse :=
  let response : HttpResponse := { status := e.response.statusCode, body := e.body }
  if e.response.isCurlError then
    { response with
      isRetryable := isRetryableCurlError e.response.curlCode
      isCurlError := true }
  else if response.status ≥ 400 then
    { response with isRetryable := isRetryableHttpStatus response.status }
  else response

/-! ## The circuit -/

structure CircuitState where
  consecutiveFailures : Int32 := 0
  openUntilMs : Int := 0
  deriving DecidableEq, Repr

/-- A call fails at `nowMs`. -/
def CircuitState.fail (r : Runtime) (nowMs : Int) (c : CircuitState) : CircuitState :=
  let c := { c with consecutiveFailures := c.consecutiveFailures + 1 }
  if c.consecutiveFailures ≥ r.circuitThreshold then
    { c with openUntilMs := nowMs + r.circuitCooldownMs.toInt }
  else c

/-- A response in the range of success, of a transfer that was completed. -/
def HttpResponse.Success (resp : HttpResponse) : Prop :=
  200 ≤ resp.status ∧ resp.status < 400 ∧ resp.isCurlError = false

instance (resp : HttpResponse) : Decidable resp.Success := inferInstanceAs (Decidable (_ ∧ _))

/-- What a call returns and leaves behind, with the requests it has sent. -/
structure Outcome where
  response : HttpResponse
  circuit : CircuitState
  sent : List (Int × CurlRequest) := []
  deriving DecidableEq, Repr

/-- The loop from one attempt on, with `remaining` of them left. The log lines and
`SleepBackoff` are left out. -/
def attemptFrom (r : Runtime) (request : CurlRequest) (exchanges : Nat → Exchange) (endMs : Int)
    (c : CircuitState) (attempt : Nat) : Nat → Outcome
  | 0 => { response := { status := 0, body := [] }, circuit := c }
  | remaining + 1 =>
      let resp := (exchanges attempt).httpResponse
      let sent := ((exchanges attempt).sentAt, request)
      if resp.Success then
        { response := resp, circuit := { c with consecutiveFailures := 0 }, sent := [sent] }
      else if resp.isRetryable = false then
        { response := resp, circuit := c.fail r endMs, sent := [sent] }
      else if remaining = 0 then
        { response := resp, circuit := c.fail r endMs, sent := [sent] }
      else
        let out := attemptFrom r request exchanges endMs c (attempt + 1) remaining
        { out with sent := sent :: out.sent }

inductive Method where
  | post (path jsonBody : Str)
  | get (path : Str)
  deriving DecidableEq, Repr

/-- A call, with the clock when it begins and ends and the transfers it can make. -/
structure Call where
  method : Method
  startMs : Int
  exchanges : Nat → Exchange
  endMs : Int

/-- What `HttpPost` and `HttpGet` have in common. -/
def httpCall (r : Runtime) (request : CurlRequest) (call : Call) (c : CircuitState) : Outcome :=
  if c.openUntilMs > call.startMs then { response := { status := 0, body := [] }, circuit := c }
  else
    let totalAttempts := 1 + r.maxRetries
    attemptFrom r request call.exchanges call.endMs c 0 totalAttempts.toInt.toNat

def httpPost (r : Runtime) (path jsonBody : Str) : Call → CircuitState → Outcome :=
  httpCall r (r.postRequest path jsonBody)

def httpGet (r : Runtime) (path : Str) : Call → CircuitState → Outcome :=
  httpCall r (r.getRequest path)

def Call.run (r : Runtime) (call : Call) (c : CircuitState) : Outcome :=
  match call.method with
  | .post path jsonBody => httpPost r path jsonBody call c
  | .get path => httpGet r path call c

/-! ## Sequences of calls -/

/-- A runtime between two calls: the last reading of the clock, and the number of calls in
a row that have sent a request and failed. -/
structure System where
  circuit : CircuitState := {}
  clockMs : Int
  failed : Nat := 0
  deriving DecidableEq, Repr

/-- The readings of the clock, from one before the call on. -/
def Call.readings (call : Call) (out : Outcome) : List Int :=
  call.startMs :: (out.sent.map (·.1) ++ [call.endMs])

/-- The clock does not go back. -/
def step (r : Runtime) (s : System) (call : Call) : Option System :=
  let out := call.run r s.circuit
  if (s.clockMs :: call.readings out).Pairwise (· ≤ ·) then
    some
      { circuit := out.circuit
        clockMs := call.endMs
        failed :=
          if out.sent = [] then s.failed else if out.response.Success then 0 else s.failed + 1 }
  else none

/-! ## One call -/

section

variable {r : Runtime} {request : CurlRequest} {exchanges : Nat → Exchange} {endMs : Int}
  {c : CircuitState}

theorem CircuitState.fail_failures :
    (c.fail r endMs).consecutiveFailures = c.consecutiveFailures + 1 := by
  unfold fail
  dsimp only
  split <;> rfl

theorem CircuitState.fail_opens (h : (c.fail r endMs).openUntilMs ≠ c.openUntilMs) :
    r.circuitThreshold ≤ c.consecutiveFailures + 1 := by
  unfold fail at h
  dsimp only at h
  split at h
  · assumption
  · exact absurd rfl h

/-- What a call that sends a request leaves of the circuit. -/
structure Counted (r : Runtime) (endMs : Int) (c : CircuitState) (out : Outcome) : Prop where
  success : out.response.Success → out.circuit = { c with consecutiveFailures := 0 }
  failure : ¬ out.response.Success → out.circuit = c.fail r endMs

/-- An attempt counts, unless the call goes on to the next one. -/
theorem attemptFrom_step (attempt remaining : Nat)
    (hnext : remaining ≠ 0 →
      Counted r endMs c (attemptFrom r request exchanges endMs c (attempt + 1) remaining)) :
    Counted r endMs c (attemptFrom r request exchanges endMs c attempt (remaining + 1)) := by
  rw [attemptFrom]
  dsimp only
  split
  · rename_i hsuccess
    exact ⟨fun _ => rfl, fun hfail => absurd hsuccess hfail⟩
  rename_i hfail
  split
  · exact ⟨fun hsuccess => absurd hsuccess hfail, fun _ => rfl⟩
  split
  · exact ⟨fun hsuccess => absurd hsuccess hfail, fun _ => rfl⟩
  · rename_i hmore
    exact ⟨(hnext hmore).success, (hnext hmore).failure⟩

theorem attemptFrom_counted (attempt remaining : Nat) :
    Counted r endMs c (attemptFrom r request exchanges endMs c attempt (remaining + 1)) := by
  induction remaining generalizing attempt with
  | zero => exact attemptFrom_step attempt 0 fun hmore => absurd rfl hmore
  | succ remaining ih => exact attemptFrom_step attempt (remaining + 1) fun _ => ih (attempt + 1)

theorem attemptFrom_sent_length (attempt remaining : Nat) :
    (attemptFrom r request exchanges endMs c attempt remaining).sent.length ≤ remaining := by
  induction remaining generalizing attempt with
  | zero => exact Nat.le_refl 0
  | succ remaining ih =>
      unfold attemptFrom
      dsimp only
      split_ifs
      · simp
      · simp
      · simp
      · have hrest := ih (attempt + 1)
        simp only [List.length_cons]
        omega

theorem attemptFrom_sent_ne (attempt remaining : Nat) :
    (attemptFrom r request exchanges endMs c attempt (remaining + 1)).sent ≠ [] := by
  unfold attemptFrom
  dsimp only
  split_ifs <;> simp

end

variable {r : Runtime} {call : Call} {c : CircuitState}

theorem Call.run_eq (r : Runtime) (call : Call) (c : CircuitState) :
    ∃ request, call.run r c = httpCall r request call c := by
  unfold run
  cases call.method with
  | post path jsonBody => exact ⟨_, rfl⟩
  | get path => exact ⟨_, rfl⟩

/-- A call sends nothing and leaves the circuit, or it counts. -/
theorem Call.run_cases (r : Runtime) (call : Call) (c : CircuitState) :
    ((call.run r c).sent = [] ∧ (call.run r c).circuit = c) ∨
      (c.openUntilMs ≤ call.startMs ∧ (call.run r c).sent ≠ [] ∧
        Counted r call.endMs c (call.run r c)) := by
  obtain ⟨request, hrun⟩ := call.run_eq r c
  rw [hrun, httpCall]
  split
  · exact .inl ⟨rfl, rfl⟩
  · rename_i hopen
    dsimp only
    cases (1 + r.maxRetries).toInt.toNat with
    | zero => exact .inl ⟨rfl, rfl⟩
    | succ remaining =>
        refine .inr ⟨by omega, ?_, ?_⟩
        · exact attemptFrom_sent_ne 0 remaining
        · exact attemptFrom_counted 0 remaining

theorem Call.run_sent_length (r : Runtime) (call : Call) (c : CircuitState) :
    (call.run r c).sent.length ≤ (1 + r.maxRetries).toInt.toNat := by
  obtain ⟨request, hrun⟩ := call.run_eq r c
  rw [hrun, httpCall]
  split
  · exact Nat.zero_le _
  · exact attemptFrom_sent_length 0 _

/-! ## The law -/

theorem int32_succ_le (n : Int32) : (n + 1).toInt ≤ n.toInt + 1 := by
  have hlow := n.le_toInt
  have hhigh := n.toInt_lt
  rw [Int32.toInt_add, Int32.toInt_one, Int.bmod_def]
  split <;> omega

theorem attempts_le {n : Int32} (h : 0 ≤ n) : (1 + n).toInt.toNat ≤ 1 + n.toInt.toNat := by
  have hsucc := int32_succ_le n
  have hn : 0 ≤ n.toInt := Int32.le_iff_toInt_le.mp h
  rw [Int32.add_comm]
  omega

/-- The counter is not ahead of the calls that have failed in a row. -/
def System.Behind (s : System) : Prop := s.circuit.consecutiveFailures.toInt ≤ s.failed

/-- What holds of every call: `s` and `s'` are the states before and after it. -/
structure Law (r : Runtime) (s : System) (call : Call) (s' : System) (out : Outcome) : Prop where
  /-- Nothing changes where nothing is sent. -/
  silent : out.sent = [] → s'.circuit = s.circuit
  reset : out.sent ≠ [] → out.response.Success → s'.circuit.consecutiveFailures = 0
  counted : out.sent ≠ [] → ¬ out.response.Success →
    s'.circuit.consecutiveFailures = s.circuit.consecutiveFailures + 1
  /-- A call that opens the circuit fails, and so did enough calls before it. -/
  opened : s'.circuit.openUntilMs ≠ s.circuit.openUntilMs →
    out.sent ≠ [] ∧ ¬ out.response.Success ∧ r.circuitThreshold.toInt ≤ s'.failed
  /-- No request is sent while the circuit is open. -/
  closed : ∀ request ∈ out.sent, s.circuit.openUntilMs ≤ request.1
  attempts : out.sent.length ≤ 1 + r.maxRetries.toInt.toNat

theorem step_eq_some {s s' : System} (h : step r s call = some s') :
    (s.clockMs :: call.readings (call.run r s.circuit)).Pairwise (· ≤ ·) ∧
      s'.circuit = (call.run r s.circuit).circuit ∧
      s'.failed = if (call.run r s.circuit).sent = [] then s.failed
        else if (call.run r s.circuit).response.Success then 0 else s.failed + 1 := by
  obtain ⟨hclock, heq⟩ := Option.ite_none_right_eq_some.mp h
  cases heq
  exact ⟨hclock, rfl, rfl⟩

theorem System.Behind.step {s s' : System} (hs : s.Behind) (h : step r s call = some s') :
    s'.Behind := by
  obtain ⟨_, hcircuit, hfailed⟩ := step_eq_some h
  unfold Behind at hs ⊢
  rw [hcircuit, hfailed]
  rcases call.run_cases r s.circuit with ⟨hsent, hsame⟩ | ⟨_, hsent, hcounted⟩
  · rw [if_pos hsent, hsame]
    exact hs
  · rw [if_neg hsent]
    split
    · rename_i hsuccess
      rw [hcounted.success hsuccess]
      simp
    · rename_i hfail
      rw [hcounted.failure hfail, CircuitState.fail_failures]
      have hsucc := int32_succ_le s.circuit.consecutiveFailures
      omega

theorem law_of_behind {s s' : System} (hs : s.Behind) (hretries : 0 ≤ r.maxRetries)
    (h : step r s call = some s') : Law r s call s' (call.run r s.circuit) := by
  obtain ⟨hclock, hcircuit, hfailed⟩ := step_eq_some h
  have hlength := (call.run_sent_length r s.circuit).trans (attempts_le hretries)
  rcases call.run_cases r s.circuit with ⟨hsent, hsame⟩ | ⟨hstart, hsent, hcounted⟩
  · rw [hsame] at hcircuit
    constructor
    · exact fun _ => hcircuit
    · exact fun hne => absurd hsent hne
    · exact fun hne => absurd hsent hne
    · intro hopened
      rw [hcircuit] at hopened
      exact absurd rfl hopened
    · rw [hsent]
      exact List.forall_mem_nil _
    · exact hlength
  · constructor
    · exact fun hempty => absurd hempty hsent
    · intro _ hsuccess
      rw [hcircuit, hcounted.success hsuccess]
    · intro _ hfail
      rw [hcircuit, hcounted.failure hfail, CircuitState.fail_failures]
    · intro hopened
      rw [hcircuit] at hopened
      by_cases hsuccess : (call.run r s.circuit).response.Success
      · rw [hcounted.success hsuccess] at hopened
        exact absurd rfl hopened
      · rw [hcounted.failure hsuccess] at hopened
        have hthreshold := Int32.le_iff_toInt_le.mp (CircuitState.fail_opens hopened)
        have hsucc := int32_succ_le s.circuit.consecutiveFailures
        rw [if_neg hsent, if_neg hsuccess] at hfailed
        unfold System.Behind at hs
        refine ⟨hsent, hsuccess, ?_⟩
        omega
    · intro request hrequest
      have hreadings := (List.pairwise_cons.mp (List.pairwise_cons.mp hclock).2).1
      have hmem : request.1 ∈ (call.run r s.circuit).sent.map (·.1) ++ [call.endMs] :=
        List.mem_append_left _ (List.mem_map_of_mem hrequest)
      exact hstart.trans (hreadings request.1 hmem)
    · exact hlength

/-- The law holds of every call of every sequence of calls. -/
theorem circuit_law {r : Runtime} (hretries : 0 ≤ r.maxRetries) (startMs : Int)
    {s s' : System} {call : Call} (hs : Run (step r) AnyStep { clockMs := startMs } s)
    (h : step r s call = some s') : Law r s call s' (call.run r s.circuit) := by
  have hstart : System.Behind { clockMs := startMs } := Int.le_refl 0
  have hbehind : s.Behind := hs.invariant hstart fun _ _ _ ht _ hstep => ht.step hstep
  exact law_of_behind hbehind hretries h

/-- A server that answers 200 at once. -/
def answered (sentAt : Int) : Exchange := { sentAt := sentAt, response := { statusCode := 200 } }

/-- A transfer that breaks off behind the status line. -/
def cutOff (sentAt : Int) : Exchange :=
  { sentAt := sentAt
    response := { statusCode := 200, curlCode := .partialFile, isCurlError := true } }

/-- The defaults of the configuration, and no retries. -/
def oneAttempt : Runtime :=
  .ofConfig { serverUrl := lit "http://memory", serverMaxRetries := 0 }

theorem circuit_law_answered :
    let call : Call :=
      { method := .get (lit "/stats"), startMs := 5, exchanges := fun _ => answered 5, endMs := 6 }
    let s : System := { clockMs := 0 }
    let s' : System := { clockMs := 6 }
    step oneAttempt s call = some s' ∧ Law oneAttempt s call s' (call.run oneAttempt s.circuit) := by
  intro call s s'
  have hretries : 0 ≤ oneAttempt.maxRetries := by decide
  have hstep : step oneAttempt s call = some s' := by decide
  exact ⟨hstep, circuit_law hretries 0 .start hstep⟩

/-- The status alone does not say that a call has succeeded. -/
theorem cutOff_counts : ¬ ∀ (r : Runtime) (startMs : Int) (s s' : System) (call : Call),
    0 ≤ r.maxRetries → 1 ≤ r.circuitThreshold → Run (step r) AnyStep { clockMs := startMs } s →
    step r s call = some s' → (call.run r s.circuit).sent ≠ [] →
    200 ≤ (call.run r s.circuit).response.status → (call.run r s.circuit).response.status < 400 →
    s'.circuit.consecutiveFailures = 0 := by
  intro hall
  let call : Call :=
    { method := .get (lit "/stats"), startMs := 5, exchanges := fun _ => cutOff 5, endMs := 6 }
  have hcounted := hall oneAttempt 0 { clockMs := 0 }
    { circuit := { consecutiveFailures := 1 }, clockMs := 6, failed := 1 } call (by decide)
    (by decide) .start (by decide) (by decide) (by decide) (by decide)
  revert hcounted
  decide

end JiuwenCore.HttpMemory
