import JiuwenCore.Worker.ReactLoop

/-!
# The ids of tool calls

The ids `ReactLoop` makes are numbered by a counter, and an id tells its number. The
calls of a response carry the ids it brings and, where it brings none, ids with the
next numbers.
-/

namespace JiuwenCore.Worker

open ContextEngine Models

variable {σ : Type}

/-! ## Numbers of ids -/

theorem append_underscore_inj {a a' d d' : Str} (hd : 95 ∉ d) (hd' : 95 ∉ d')
    (h : a ++ 95 :: d = a' ++ 95 :: d') : d = d' := by
  have htail : ∀ {a d : Str}, 95 ∉ d → (a ++ 95 :: d).reverse.takeWhile (· ≠ 95) = d.reverse := by
    intro a d hd
    have hall : ∀ c ∈ d.reverse, decide (c ≠ (95 : UInt8)) = true := fun c hc =>
      decide_eq_true fun heq => hd (heq ▸ List.mem_reverse.mp hc)
    rw [List.reverse_append, List.reverse_cons, List.append_assoc,
      List.takeWhile_append_of_pos hall]
    simp
  have hreverse := congrArg (fun s : Str => s.reverse.takeWhile (· ≠ 95)) h
  simp only [htail hd, htail hd'] at hreverse
  exact List.reverse_inj.mp hreverse

/-- An id tells its number, whatever the session. -/
theorem callId_number {s s' : Str} {n n' : Nat} (h : callId s n = callId s' n') : n = n' := by
  have hsplit : ∀ s n, callId s n =
      (lit "call_" ++ if s = [] then lit "anon" else s) ++ 95 :: toDecimal n :=
    fun _ _ => List.append_assoc _ _ _
  rw [hsplit, hsplit] at h
  exact toDecimal_injective (append_underscore_inj (underscore_not_mem_toDecimal n)
    (underscore_not_mem_toDecimal n') h)

/-- `id` is an id of the loop with number `n`. -/
def HasNumber (config : LoopConfig) (id : Str) (n : Nat) : Prop :=
  id = callId config.configSessionId n ∨ id = callId config.sessionId n

theorem HasNumber.unique {config : LoopConfig} {id : Str} {n n' : Nat}
    (h : HasNumber config id n) (h' : HasNumber config id n') : n = n' := by
  rcases h with h | h
  · rcases h' with h' | h'
    · exact callId_number (h.symm.trans h')
    · exact callId_number (h.symm.trans h')
  · rcases h' with h' | h'
    · exact callId_number (h.symm.trans h')
    · exact callId_number (h.symm.trans h')

/-- None of the ids has a number that is still to be given. -/
def NoneAhead (config : LoopConfig) (counter : Nat) (ids : List Str) : Prop :=
  ∀ id ∈ ids, ∀ n, n < 2 ^ 64 → HasNumber config id n → n ≤ counter

/-! ## The ids made for a response -/

/-- The ids of `count` calls of `MakeFallbackCallId` in a row. -/
@[grind =] def takenIds (sessionId : Str) (counter : Nat) : Nat → List Str
  | 0 => []
  | count + 1 =>
      let (id, counter) := makeFallbackCallId counter sessionId
      id :: takenIds sessionId counter count

/-- The ids the loop makes for a response. -/
def madeIds (config : LoopConfig) (counter : Nat) (resp : ModelResponse) : List Str :=
  if resp.toolCalls = [] ∧ config.useNativeFunctionCalling = false then
    takenIds config.configSessionId counter (extractAllToolCalls resp.content).length
  else takenIds config.sessionId counter (resp.toolCalls.countP fun tc => tc.id = [])

theorem adoptParsed_spec (sessionId : Str) (counter : Nat) (parsed : List ParsedToolCall)
    (hroom : counter + parsed.length < 2 ^ 64) :
    (adoptParsed sessionId counter parsed).1.map (·.id) =
        takenIds sessionId counter parsed.length ∧
      (adoptParsed sessionId counter parsed).2 = counter + parsed.length := by
  induction parsed generalizing counter with
  | nil => exact ⟨rfl, rfl⟩
  | cons p rest ih =>
      rw [List.length_cons] at hroom
      have hnext : (counter + 1) % 2 ^ 64 = counter + 1 := Nat.mod_eq_of_lt (by omega)
      obtain ⟨hids, hcounter⟩ := ih (counter + 1) (by omega)
      simp only [adoptParsed, takenIds, makeFallbackCallId, List.length_cons, hnext, List.map_cons,
        hids, hcounter, true_and]
      omega

theorem fillMissingIds_spec (sessionId : Str) (counter : Nat) (calls : List ToolCall)
    (hroom : counter + calls.length < 2 ^ 64) :
    (∀ id, id ∈ (fillMissingIds sessionId counter calls).1.map (·.id) ↔
      (id ∈ calls.map (·.id) ∧ id ≠ []) ∨
        id ∈ takenIds sessionId counter (calls.countP fun tc => tc.id = [])) ∧
      (fillMissingIds sessionId counter calls).2 =
        counter + calls.countP fun tc => tc.id = [] := by
  induction calls generalizing counter with
  | nil => simp [fillMissingIds, takenIds]
  | cons tc rest ih =>
      rw [List.length_cons] at hroom
      by_cases hid : tc.id = []
      · have hnext : (counter + 1) % 2 ^ 64 = counter + 1 := Nat.mod_eq_of_lt (by omega)
        obtain ⟨hids, hcounter⟩ := ih (counter + 1) (by omega)
        have hfill : fillMissingIds sessionId counter (tc :: rest) =
            ({ tc with id := callId sessionId (counter + 1) } ::
              (fillMissingIds sessionId (counter + 1) rest).1,
              (fillMissingIds sessionId (counter + 1) rest).2) := by
          rw [fillMissingIds, if_pos hid, makeFallbackCallId, hnext]
        have htaken : ∀ count, takenIds sessionId counter (count + 1) =
            callId sessionId (counter + 1) :: takenIds sessionId (counter + 1) count := by
          intro count
          rw [takenIds, makeFallbackCallId, hnext]
        rw [hfill, List.countP_cons_of_pos (by simpa using hid), htaken]
        refine ⟨fun id => ?_, by rw [hcounter]; omega⟩
        rw [List.map_cons, List.mem_cons, hids, List.map_cons, List.mem_cons, List.mem_cons, hid]
        tauto
      · obtain ⟨hids, hcounter⟩ := ih counter (by omega)
        have hfill : fillMissingIds sessionId counter (tc :: rest) =
            (tc :: (fillMissingIds sessionId counter rest).1,
              (fillMissingIds sessionId counter rest).2) := by
          rw [fillMissingIds, if_neg hid]
        rw [hfill, List.countP_cons_of_neg (by simpa using hid)]
        refine ⟨fun id => ?_, hcounter⟩
        rw [List.map_cons, List.mem_cons, hids, List.map_cons, List.mem_cons]
        constructor
        · rintro (rfl | h | h)
          · exact .inl ⟨.inl rfl, hid⟩
          · exact .inl ⟨.inr h.1, h.2⟩
          · exact .inr h
        · rintro (⟨h | h, hne⟩ | h)
          · exact .inl h
          · exact .inr (.inl ⟨h, hne⟩)
          · exact .inr (.inr h)

theorem takenIds_length (sessionId : Str) (counter count : Nat) :
    (takenIds sessionId counter count).length = count := by
  induction count generalizing counter with
  | zero => rfl
  | succ count ih => rw [takenIds, List.length_cons, ih]

/-- The ids taken in a row are those of the numbers behind the counter. -/
theorem mem_takenIds {sessionId : Str} {counter count : Nat} (hroom : counter + count < 2 ^ 64)
    (id : Str) :
    id ∈ takenIds sessionId counter count ↔
      ∃ n, counter < n ∧ n ≤ counter + count ∧ id = callId sessionId n := by
  induction count generalizing counter with
  | zero =>
      simp only [takenIds, List.not_mem_nil, false_iff]
      rintro ⟨n, h₁, h₂, _⟩
      omega
  | succ count ih =>
      have hnext : (counter + 1) % 2 ^ 64 = counter + 1 := Nat.mod_eq_of_lt (by omega)
      rw [takenIds, makeFallbackCallId, hnext]
      simp only [List.mem_cons, ih (show counter + 1 + count < 2 ^ 64 by omega)]
      constructor
      · rintro (rfl | ⟨n, h₁, h₂, rfl⟩)
        · exact ⟨counter + 1, by omega, by omega, rfl⟩
        · exact ⟨n, by omega, by omega, rfl⟩
      · rintro ⟨n, h₁, h₂, rfl⟩
        by_cases hn : n = counter + 1
        · exact .inl (by rw [hn])
        · exact .inr ⟨n, by omega, by omega, rfl⟩

theorem takenIds_nodup {sessionId : Str} {counter count : Nat}
    (hroom : counter + count < 2 ^ 64) : (takenIds sessionId counter count).Nodup := by
  induction count generalizing counter with
  | zero => exact List.nodup_nil
  | succ count ih =>
      have hnext : (counter + 1) % 2 ^ 64 = counter + 1 := Nat.mod_eq_of_lt (by omega)
      rw [takenIds, makeFallbackCallId, hnext]
      refine List.nodup_cons.mpr ⟨fun hmem => ?_, ih (by omega)⟩
      obtain ⟨n, hn, _, heq⟩ := (mem_takenIds (by omega) _).mp hmem
      have hnumber := callId_number heq
      omega

theorem fillMissingIds_of_filled (sessionId : Str) (counter : Nat) {calls : List ToolCall}
    (h : ∀ tc ∈ calls, tc.id ≠ []) : fillMissingIds sessionId counter calls = (calls, counter) := by
  induction calls with
  | nil => rfl
  | cons tc rest ih =>
      rw [fillMissingIds, if_neg (h tc List.mem_cons_self),
        ih fun x hx => h x (List.mem_cons_of_mem tc hx)]

/-- The number of calls a response may ask for, as structured calls or in its text. -/
def callCount (resp : ModelResponse) : Nat :=
  resp.toolCalls.length + (extractAllToolCalls resp.content).length

/-- The calls of a response carry the ids it brings and those made for it. -/
theorem toolCallsOf_ids {config : LoopConfig} {counter : Nat} {resp : ModelResponse}
    (hroom : counter + callCount resp < 2 ^ 64) :
    (∀ id, id ∈ (toolCallsOf config counter resp).1.map (·.id) ↔
      (id ∈ resp.toolCalls.map (·.id) ∧ id ≠ []) ∨ id ∈ madeIds config counter resp) ∧
    (toolCallsOf config counter resp).2 = counter + (madeIds config counter resp).length := by
  unfold callCount at hroom
  by_cases hparsed : resp.toolCalls = [] ∧ config.useNativeFunctionCalling = false
  · obtain ⟨hids, hcounter⟩ := adoptParsed_spec config.configSessionId counter
      (extractAllToolCalls resp.content) (by omega)
    have hfilled : ∀ tc ∈ (adoptParsed config.configSessionId counter
        (extractAllToolCalls resp.content)).1, tc.id ≠ [] := by
      intro tc htc
      have hmem := hids ▸ List.mem_map_of_mem htc
      obtain ⟨n, _, _, heq⟩ := (mem_takenIds (by omega) _).mp hmem
      exact heq ▸ callId_ne_nil _ n
    have hcalls : toolCallsOf config counter resp =
        adoptParsed config.configSessionId counter (extractAllToolCalls resp.content) := by
      rw [toolCallsOf, if_pos hparsed]
      exact fillMissingIds_of_filled _ _ hfilled
    rw [hcalls, madeIds, if_pos hparsed, hids, hcounter, takenIds_length, hparsed.1]
    exact ⟨by simp, rfl⟩
  · have hcalls : toolCallsOf config counter resp =
        fillMissingIds config.sessionId counter resp.toolCalls := by
      rw [toolCallsOf, if_neg hparsed]
    rw [hcalls, madeIds, if_neg hparsed, takenIds_length]
    exact fillMissingIds_spec config.sessionId counter resp.toolCalls (by omega)

theorem madeIds_length_le (config : LoopConfig) (counter : Nat) (resp : ModelResponse) :
    (madeIds config counter resp).length ≤ callCount resp := by
  have hcount : resp.toolCalls.countP (fun tc => tc.id = []) ≤ resp.toolCalls.length :=
    List.countP_le_length
  unfold madeIds callCount
  split
  · rw [takenIds_length]
    omega
  · rw [takenIds_length]
    omega

/-- The ids made for a response have the numbers behind the counter, once each. -/
theorem madeIds_numbers {config : LoopConfig} {counter : Nat} {resp : ModelResponse}
    (hroom : counter + callCount resp < 2 ^ 64) :
    (madeIds config counter resp).Nodup ∧
    ∀ id ∈ madeIds config counter resp, ∃ n, counter < n ∧
      n ≤ counter + (madeIds config counter resp).length ∧ HasNumber config id n := by
  have hlength := madeIds_length_le config counter resp
  unfold madeIds at hlength ⊢
  split
  · rename_i hparsed
    rw [if_pos hparsed, takenIds_length] at hlength
    refine ⟨takenIds_nodup (by omega), fun id hid => ?_⟩
    obtain ⟨n, h₁, h₂, heq⟩ := (mem_takenIds (by omega) id).mp hid
    exact ⟨n, h₁, by rwa [takenIds_length], .inl heq⟩
  · rename_i hparsed
    rw [if_neg hparsed, takenIds_length] at hlength
    refine ⟨takenIds_nodup (by omega), fun id hid => ?_⟩
    obtain ⟨n, h₁, h₂, heq⟩ := (mem_takenIds (by omega) id).mp hid
    exact ⟨n, h₁, by rwa [takenIds_length], .inr heq⟩

end JiuwenCore.Worker
