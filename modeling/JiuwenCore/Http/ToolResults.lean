import JiuwenCore.Http.ChatStream

/-!
# The results of tools on the page

A tool's result passes three hands: the worker tags it with the id of its call, the server makes an
event of it, and the page takes the id from the event's data again, to find the bubble of the call.
The server looks for its tags anywhere in the text.
-/

namespace JiuwenCore.HttpServer

/-- `[A-Za-z0-9_\-]` -/
def isWord (c : UInt8) : Bool :=
  48 ≤ c ∧ c ≤ 57 ∨ 65 ≤ c ∧ c ≤ 90 ∨ 97 ≤ c ∧ c ≤ 122 ∨ c = 95 ∨ c = 45

/-- The match of `/^([A-Za-z0-9_\-]+):\s*([\s\S]*)$/`. -/
def matchCallId (data : Str) : Option (Str × Str) :=
  let callId := data.takeWhile isWord
  match data.drop callId.length with
  | 58 :: rest => if callId = [] then none else some (callId, skipSpace rest)
  | _ => none

/-- The call whose bubble a tool response goes to, and the text that is put there. -/
def toolResult (event : Str × Str) : Option (Str × Str) :=
  if event.1 = lit "tool_response" then some ((matchCallId event.2).getD ([], event.2)) else none

/-- What the worker says of the result of a call. -/
def toolResponse (id observation : Str) : Str :=
  lit "\n[TOOL_RESPONSE " ++ id ++ lit "] " ++ observation ++ lit "\n"

/-- The tags that are looked for before the one of a tool response. -/
def earlierTags : List Str := [tagStream, tagStatus, tagToolCalls]

theorem classify_toolResponse {resp : Str} (h : (classify resp).1 = .toolResponse) :
    ∀ tag ∈ earlierTags, indexOf tag resp = none := by
  revert h
  fun_cases classify resp with
  | case4 hstream hstatus hcalls pos hpos =>
      intro _ tag htag
      simp only [earlierTags, List.mem_cons, List.not_mem_nil, or_false] at htag
      rcases htag with rfl | rfl | rfl
      · exact hstream
      · exact hstatus
      · exact hcalls
  | _ => exact fun h => by cases h

theorem skipSpace_space (s : Str) : skipSpace (32 :: s) = skipSpace s := rfl

theorem skipSpace_dropWhile (s : Str) :
    skipSpace ((s.dropWhile isSpace).filter (· ≠ 13)) = skipSpace (s.filter (· ≠ 13)) := by
  induction s with
  | nil => rfl
  | cons c s ih =>
      by_cases hc : isSpace c = true
      · have h32 : c = 32 := of_decide_eq_true hc
        rw [List.dropWhile_cons_of_pos hc, ih, h32, List.filter_cons_of_pos (by decide),
          skipSpace_space]
      · rw [List.dropWhile_cons_of_neg hc]

theorem indexOf_of_head_not_mem {b : UInt8} {needle s : Str} (h : b ∉ s) :
    indexOf (b :: needle) s = none := by
  induction s with
  | nil => rfl
  | cons c s ih =>
      rw [List.mem_cons, not_or] at h
      rw [indexOf, if_neg (by simp [List.isPrefixOf, h.1]), ih h.2]
      rfl

theorem isWord_ne {c : UInt8} (h : isWord c = true) :
    c ≠ 91 ∧ c ≠ 93 ∧ c ≠ 58 ∧ c ≠ 32 ∧ c ≠ 13 ∧ c ≠ 10 := by
  have hall : ∀ k : Fin 256, isWord (UInt8.ofNat k) = true →
      UInt8.ofNat k ≠ 91 ∧ UInt8.ofNat k ≠ 93 ∧ UInt8.ofNat k ≠ 58 ∧ UInt8.ofNat k ≠ 32 ∧
        UInt8.ofNat k ≠ 13 ∧ UInt8.ofNat k ≠ 10 := by decide +kernel
  exact byte_below (motive := fun c => isWord c = true →
    c ≠ 91 ∧ c ≠ 93 ∧ c ≠ 58 ∧ c ≠ 32 ∧ c ≠ 13 ∧ c ≠ 10) hall c.toNat_lt h

theorem infix_of_infix_line {tag s : Str} (hne : tag ≠ []) (hline : 10 ∉ tag)
    (h : tag <:+: s ++ [10]) : tag <:+: s := by
  rcases List.infix_concat_iff.mp h with hlast | hinside
  · obtain ⟨before, hbefore⟩ := hlast
    have hmem : (tag.getLast hne) = 10 := by
      have := congrArg List.getLast? hbefore
      rw [List.getLast?_append_of_ne_nil _ hne, List.getLast?_concat,
        List.getLast?_eq_some_getLast hne] at this
      exact Option.some.inj this
    exact absurd (hmem ▸ List.getLast_mem hne) hline
  · exact hinside

/-- An earlier tag is found only in the result itself. -/
theorem indexOf_toolResponse {id observation tag : Str} (hid : ∀ c ∈ id, isWord c = true)
    (htag : tag ∈ earlierTags) (h : ¬ tag <:+: observation) :
    indexOf tag (toolResponse id observation) = none := by
  have hparts : ∀ tag ∈ earlierTags, 32 ∉ tag ∧ 10 ∉ tag ∧ tag ≠ [] ∧ (∃ rest, tag = 91 :: rest) ∧
      indexOf tag (lit "\n[TOOL_RESPONSE ") = none := by
    intro tag htag
    simp only [earlierTags, List.mem_cons, List.not_mem_nil, or_false] at htag
    rcases htag with rfl | rfl | rfl <;>
      exact ⟨by decide, by decide, by decide, ⟨_, rfl⟩, by decide⟩
  obtain ⟨hspace, hline, hne, ⟨rest, hrest⟩, hfront⟩ := hparts tag htag
  have hheader : indexOf tag (id ++ lit "] ") = none := by
    rw [hrest]
    refine indexOf_of_head_not_mem ?_
    rw [List.mem_append, not_or]
    exact ⟨fun hmem => (isWord_ne (hid _ hmem)).1 rfl, by decide⟩
  have hbody : indexOf tag (observation ++ lit "\n") = none := by
    by_contra hfound
    obtain ⟨pos, hpos⟩ := Option.ne_none_iff_exists'.mp hfound
    obtain ⟨before, after, hsplit, -⟩ := indexOf_split hpos
    have hinfix : tag <:+: observation ++ lit "\n" := ⟨before, after, by
      rw [hsplit, List.append_assoc]⟩
    exact h (infix_of_infix_line hne hline hinfix)
  have hresp : toolResponse id observation =
      lit "\n[TOOL_RESPONSE " ++ ((id ++ lit "] ") ++ (observation ++ lit "\n")) := by
    rw [toolResponse]
    simp only [List.append_assoc]
  have hlast : (id ++ lit "] ").getLast? = some 32 := by
    rw [List.getLast?_append_of_ne_nil _ (by decide)]
    rfl
  rw [hresp, indexOf_behind hspace (by decide) hfront, indexOf_behind hspace hlast hheader, hbody]
  rfl

theorem dropWhile_word {p : UInt8 → Bool} {id : Str} (hne : id ≠ [])
    (hid : ∀ c ∈ id, isWord c = true) (hp : ∀ c, isWord c = true → p c = false) (rest : Str) :
    (id ++ rest).dropWhile p = id ++ rest := by
  obtain ⟨c, tail, rfl⟩ := List.exists_cons_of_ne_nil hne
  have hc := hp c (hid c List.mem_cons_self)
  rw [List.cons_append, List.dropWhile_cons_of_neg (by rw [hc]; exact Bool.false_ne_true)]

section Routed

variable {id : Str} (hne : id ≠ []) (hid : ∀ c ∈ id, isWord c = true) (observation : Str)

include hne hid

theorem toolResponseData_routed :
    indexOf tagToolResponse (toolResponse id observation) = some 1 ∧
      toolResponseData (toolResponse id observation) 1 =
        id ++ lit ": " ++ (observation ++ lit "\n").dropWhile isSpace := by
  have hbracket : 93 ∉ tagToolResponse ++ 32 :: id := by
    rw [List.mem_append, not_or, List.mem_cons, not_or]
    exact ⟨by decide, by decide, fun hmem => (isWord_ne (hid _ hmem)).2.1 rfl⟩
  have hshape : toolResponse id observation =
      10 :: ((tagToolResponse ++ 32 :: id) ++ 93 :: (32 :: (observation ++ lit "\n"))) := by
    rw [toolResponse]
    simp only [List.append_assoc, List.cons_append]
    rfl
  have hlength : (tagToolResponse ++ 32 :: id).length = 15 + id.length := by
    rw [List.length_append, List.length_cons, show tagToolResponse.length = 14 from rfl]
    omega
  have hclose : findFrom [93] (toolResponse id observation) 1 = some (15 + id.length + 1) := by
    rw [findFrom_eq (List.cons_ne_nil _ _), hshape, List.drop_one, List.tail_cons,
      indexOf_byte_of hbracket, hlength]
    rfl
  have hheader : ((toolResponse id observation).drop (1 + 14)).take
      (15 + id.length + 1 - 1 - 14) = 32 :: id := by
    have hdrop : (toolResponse id observation).drop (1 + 14) =
        (32 :: id) ++ 93 :: (32 :: (observation ++ lit "\n")) := by
      rw [hshape]
      rfl
    have htake : 15 + id.length + 1 - 1 - 14 = (32 :: id).length := by
      rw [List.length_cons]
      omega
    rw [hdrop, htake, List.take_left]
  have hpayload : (toolResponse id observation).drop (15 + id.length + 1 + 1) =
      32 :: (observation ++ lit "\n") := by
    rw [hshape, List.drop_succ_cons, ← hlength, ← List.drop_drop, List.drop_left]
    rfl
  have hword : (32 :: id).dropWhile isSpace = id := by
    have hkept := dropWhile_word hne hid
      (fun c hc => decide_eq_false (isWord_ne hc).2.2.2.1) (p := isSpace) []
    rw [List.append_nil] at hkept
    rw [List.dropWhile_cons_of_pos (by decide), hkept]
  constructor
  · rw [hshape, indexOf, if_neg (by exact Bool.false_ne_true), List.append_assoc, indexOf_front]
    rfl
  · rw [toolResponseData, hclose]
    dsimp only
    rw [hheader, hpayload, hword, if_neg hne, List.dropWhile_cons_of_pos (by decide)]

theorem classify_routed (htags : ∀ tag ∈ earlierTags, ¬ tag <:+: observation) :
    classify (toolResponse id observation) =
      (.toolResponse, id ++ lit ": " ++ (observation ++ lit "\n").dropWhile isSpace) := by
  obtain ⟨hpos, hdata⟩ := toolResponseData_routed hne hid observation
  have hearlier : ∀ tag ∈ earlierTags, indexOf tag (toolResponse id observation) = none :=
    fun tag htag => indexOf_toolResponse hid htag (htags tag htag)
  have hkept := dropWhile_word hne hid (p := fun c => c = 10)
    (fun c hc => decide_eq_false (isWord_ne hc).2.2.2.2.2)
    (lit ": " ++ (observation ++ lit "\n").dropWhile isSpace)
  rw [← List.append_assoc] at hkept
  rw [classify, hearlier tagStream (by decide), hearlier tagStatus (by decide),
    hearlier tagToolCalls (by decide), hpos]
  dsimp only
  rw [hdata, hkept]

theorem matchCallId_word (rest : Str) :
    matchCallId (id ++ 58 :: rest) = some (id, skipSpace rest) := by
  have hword : (id ++ 58 :: rest).takeWhile isWord = id := by
    rw [List.takeWhile_append_of_pos hid, List.takeWhile_cons_of_neg (by decide), List.append_nil]
  rw [matchCallId, hword, List.drop_left]
  exact if_neg hne

end Routed

theorem matchCallId_spec {data callId text : Str} (h : matchCallId data = some (callId, text)) :
    callId ≠ [] ∧ ∀ c ∈ callId, isWord c = true := by
  rw [matchCallId] at h
  split at h
  · obtain ⟨hne, heq⟩ := Option.ite_none_left_eq_some.mp h
    cases heq
    exact ⟨hne, fun c hc => List.mem_takeWhile_imp hc⟩
  · cases h

/-- What comes to the bubble of a call, was taken for its result and not for something else. -/
theorem of_routed {lib : JsonLib} {id : Str} (hne : id ≠ []) {observation text : Str}
    (h : ((shown lib (toolResponse id observation)).bind fun event => toolResult (pageView event)) =
      some (id, text)) :
    (∀ c ∈ id, isWord c = true) ∧ ∀ tag ∈ earlierTags, ¬ tag <:+: observation := by
  obtain ⟨event, hshown, hresult⟩ := Option.bind_eq_some_iff.mp h
  obtain ⟨htext, hid⟩ := Option.ite_none_right_eq_some.mp hresult
  have htype : event.1 = .toolResponse := by
    have heq : event.1.text = lit "tool_response" := htext
    revert heq
    cases event.1 <;> decide
  have hclass : (classify (toolResponse id observation)).1 = .toolResponse := by
    rw [← shown_type hshown, htype]
  refine ⟨?_, fun tag htag hinfix => ?_⟩
  · cases hmatch : matchCallId (pageView event).2 with
    | none =>
        rw [hmatch] at hid
        exact absurd (congrArg Prod.fst (Option.some.inj hid)).symm hne
    | some found =>
        rw [hmatch] at hid
        have hfound : found.1 = id := congrArg Prod.fst (Option.some.inj hid)
        rw [← hfound]
        exact (matchCallId_spec (show matchCallId _ = some (found.1, found.2) from hmatch)).2
  · obtain ⟨before, after, rfl⟩ := hinfix
    have hnone := classify_toolResponse hclass tag htag
    have hsplit : toolResponse id (before ++ tag ++ after) =
        (lit "\n[TOOL_RESPONSE " ++ id ++ lit "] " ++ before) ++
          (tag ++ (after ++ lit "\n")) := by
      rw [toolResponse]
      simp only [List.append_assoc]
    rw [hsplit] at hnone
    exact indexOf_ne_none _ _ _ hnone

theorem routed (lib : JsonLib) {id : Str} (hne : id ≠ []) (hid : ∀ c ∈ id, isWord c = true)
    {observation : Str} (htags : ∀ tag ∈ earlierTags, ¬ tag <:+: observation) :
    ((shown lib (toolResponse id observation)).bind fun event => toolResult (pageView event)) =
      some (id, skipSpace ((observation ++ lit "\n").filter (· ≠ 13))) := by
  have hclass := classify_routed hne hid observation htags
  have hplain : id.filter (· ≠ 13) = id :=
    List.filter_eq_self.mpr fun c hc => decide_eq_true (isWord_ne (hid c hc)).2.2.2.2.1
  have hdata : (classify (toolResponse id observation)).2.filter (· ≠ 13) =
      id ++ 58 :: (32 :: ((observation ++ lit "\n").dropWhile isSpace).filter (· ≠ 13)) := by
    rw [hclass]
    dsimp only
    rw [List.filter_append, List.filter_append, hplain, List.append_assoc]
    rfl
  have hresp : ¬ (toolResponse id observation = [] ∨
      (classify (toolResponse id observation)).2.filter (· ≠ 13) = []) := by
    rw [hdata, not_or]
    exact ⟨by simp [toolResponse, lit], List.append_ne_nil_of_left_ne_nil hne _⟩
  have htext : EventType.toolResponse.text = lit "tool_response" := rfl
  rw [shown, if_neg hresp, hdata, hclass, if_neg (fun h => EventType.noConfusion h),
    Option.bind_some, toolResult, pageView]
  dsimp only
  rw [if_pos htext, matchCallId_word hne hid, Option.getD_some, skipSpace_space,
    skipSpace_dropWhile]

end JiuwenCore.HttpServer
