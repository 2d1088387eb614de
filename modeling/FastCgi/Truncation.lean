import FastCgi.Cocgi

/-! # Responses on a non-blocking socket

`doRequest` writes a response until the socket takes no more of it. When a call of `write` fails
with `EAGAIN`, it returns `ERR_SOCKET_EAGAIN`, the rest of the response is dropped, and
`readwrite_routine` goes on with the connection. This file says exactly when a response is cut
short on a connection that stays in use: `Cocgi.serve_sent`, over whole runs of the loop. -/

namespace FastCgi

namespace Cocgi

variable (backend : Backend)

/-- The codes on which the connection stays in use, or is finished in good order. -/
def Proper : ErrorCode → Prop
  | .ok | .socketEagain | .socketFinish => True
  | .socketRead | .socketWrite => False

/-- A call **ends properly** when it returns such a code. -/
def Report.EndsProperly (r : Report) : Prop :=
  ∃ ret errno c, r.outcome = .ok (ret, errno, c) ∧ Proper ret

/-- Writing the response of a call is **cut off** by `EAGAIN`: a call of `write` fails with it while
bytes of the response are left. -/
def CutOff (call : Call) (r : Report) : Prop :=
  WritingFails call.writes eagain 0 r.response.length

theorem proper_returnCode {keepConn : Bool} {code : ErrorCode} :
    Proper (returnCode keepConn code) ↔ Proper code := by
  cases keepConn <;> cases code <;> simp [returnCode, Proper]

theorem proper_failureCode {e : Errno} : Proper (failureCode e) ↔ e = eagain := by
  rw [failureCode]
  split
  · rename_i h
    simp [Proper, h]
  · rename_i h
    simp [Proper, h]

/-! ## One call -/

/-- The bytes taken by the socket are a prefix of the response. -/
theorem sent_prefix_response (call : Call) (c : Codec) :
    (readData backend call c).sent <+: (readData backend call c).response := by
  obtain ⟨ret, errno, c', h⟩ | ⟨invoked, h⟩ | ⟨invoked, response, w, keepConn, c', hends, h⟩ :=
    readData_cases backend call c
  · rw [h]
    exact List.prefix_rfl
  · rw [h]
  · rw [h]
    cases hends with
    | complete _ => exact List.prefix_rfl
    | failed e _ hsplit _ => exact ⟨_, hsplit.symm⟩

/-- A call that ends properly has sent its whole response iff it was not cut off. -/
theorem sent_eq_response_iff (call : Call) (c : Codec) :
    ((readData backend call c).EndsProperly →
        (readData backend call c).sent = (readData backend call c).response) ↔
      ¬ CutOff call (readData backend call c) := by
  rw [CutOff]
  obtain ⟨ret, errno, c', h⟩ | ⟨invoked, h⟩ | ⟨invoked, response, w, keepConn, c', hends, h⟩ :=
    readData_cases backend call c
  · rw [h]
    exact ⟨fun _ => not_writingFails_zero, fun _ _ => rfl⟩
  · rw [h]
    exact ⟨fun _ => not_writingFails_zero, fun _ _ => rfl⟩
  · rw [h]
    -- the response is sent as a whole, or a call of `write` fails with some of it unsent
    cases hends with
    | complete hno => exact ⟨fun _ => hno eagain, fun _ _ => rfl⟩
    | failed e hfails hsplit hne =>
        constructor
        · -- the call that failed was the one with `EAGAIN`, and the code it gives is proper
          intro himp hcut
          have hproper : Proper (failureCode e) :=
            proper_failureCode.mpr (writingFails_unique hfails hcut)
          have hsent := himp ⟨_, _, _, rfl, proper_returnCode.mpr hproper⟩
          simp only at hsent
          rw [hsplit, List.self_eq_append_right] at hsent
          exact hne hsent
        · rintro hno ⟨ret, errno, c'', hout, hproper⟩
          simp only [Except.ok.injEq, Prod.mk.injEq] at hout
          rw [← hout.1, proper_returnCode, proper_failureCode] at hproper
          subst hproper
          exact absurd hfails hno

/-! ## Whole runs -/

/-- The reports of a run are those of its calls, in order. -/
theorem serve_reports (c : Codec) (recycle : Nat) (calls : List Call) :
    (serve backend c recycle calls).1.length ≤ calls.length ∧
      ∀ p ∈ calls.zip (serve backend c recycle calls).1, ∃ c', p.2 = readData backend p.1 c' := by
  induction calls generalizing c recycle with
  | nil => simp [serve]
  | cons call calls ih =>
      have hone : ∀ standing : Standing, (call :: calls).zip ([readData backend call c], standing).1
          = [(call, readData backend call c)] := by
        intro standing
        cases calls <;> rfl
      rw [serve]
      split
      · refine ⟨by simp, fun p hp => ?_⟩
        rw [hone, List.mem_singleton] at hp
        exact ⟨c, by rw [hp]⟩
      · split
        · refine ⟨by simp, fun p hp => ?_⟩
          rw [hone, List.mem_singleton] at hp
          exact ⟨c, by rw [hp]⟩
        · rename_i c' _ _ recycle' _
          obtain ⟨hlen, hmem⟩ := ih c' recycle'
          refine ⟨Nat.succ_le_succ hlen, fun p hp => ?_⟩
          obtain rfl | hp := List.mem_cons.mp hp
          · exact ⟨c, rfl⟩
          · exact hmem p hp

/-- On a connection that is still served, all calls have ended properly. -/
theorem endsProperly_of_serving {c c' : Codec} {recycle recycle' : Nat} {calls : List Call}
    (h : (serve backend c recycle calls).2 = .serving c' recycle') :
    ∀ r ∈ (serve backend c recycle calls).1, r.EndsProperly := by
  induction calls generalizing c recycle with
  | nil => simp [serve]
  | cons call calls ih =>
      rw [serve] at h ⊢
      split at h
      · cases h
      · rename_i ret errno c₁ hout
        split at h
        · cases h
        · rename_i recycle₁ hnext
          intro r hr
          obtain rfl | hr := List.mem_cons.mp hr
          · refine ⟨ret, errno, c₁, hout, ?_⟩
            cases ret <;> simp [nextRecycle, Proper] at hnext ⊢
          · exact ih h r hr

/-- **What a run sends.** Over every run of the loop, the bytes taken by the socket in each call are
a prefix of the response that was encoded; the calls that end properly have all sent their whole
response iff no response was cut off by `EAGAIN`; and in a run without such a cut, the bytes sent
on a connection that is still open are a concatenation of complete responses. -/
theorem serve_sent (c : Codec) (recycle : Nat) (calls : List Call) :
    (∀ r ∈ (serve backend c recycle calls).1, r.sent <+: r.response) ∧
      ((∀ r ∈ (serve backend c recycle calls).1, r.EndsProperly → r.sent = r.response) ↔
        ∀ p ∈ calls.zip (serve backend c recycle calls).1, ¬ CutOff p.1 p.2) ∧
      ((∀ p ∈ calls.zip (serve backend c recycle calls).1, ¬ CutOff p.1 p.2) →
        ∀ c' recycle', (serve backend c recycle calls).2 = .serving c' recycle' →
          (serve backend c recycle calls).1.flatMap Report.sent
            = (serve backend c recycle calls).1.flatMap Report.response) := by
  obtain ⟨hlen, hmem⟩ := serve_reports backend c recycle calls
  -- every report belongs to a call of the run
  have hpaired : ∀ r ∈ (serve backend c recycle calls).1, ∃ call,
      (call, r) ∈ calls.zip (serve backend c recycle calls).1 := by
    intro r hr
    rw [← List.map_snd_zip hlen] at hr
    obtain ⟨p, hp, rfl⟩ := List.mem_map.mp hr
    exact ⟨p.1, hp⟩
  have hcomplete : (∀ p ∈ calls.zip (serve backend c recycle calls).1, ¬ CutOff p.1 p.2) →
      ∀ r ∈ (serve backend c recycle calls).1, r.EndsProperly → r.sent = r.response := by
    intro hno r hr
    obtain ⟨call, hp⟩ := hpaired r hr
    obtain ⟨c', hr'⟩ := hmem _ hp
    have hcut := hno _ hp
    simp only at hr' hcut
    rw [hr'] at hcut ⊢
    exact (sent_eq_response_iff backend call c').mpr hcut
  refine ⟨?_, ⟨?_, hcomplete⟩, ?_⟩
  · intro r hr
    obtain ⟨call, hp⟩ := hpaired r hr
    obtain ⟨c', hr'⟩ := hmem _ hp
    simp only at hr'
    rw [hr']
    exact sent_prefix_response backend call c'
  · intro hall p hp
    obtain ⟨c', hr'⟩ := hmem p hp
    have hr := hall p.2 (List.of_mem_zip hp).2
    rw [hr'] at hr ⊢
    exact (sent_eq_response_iff backend p.1 c').mp hr
  · intro hno c' recycle' hserving
    -- on an open connection no call has failed otherwise
    have hproper := endsProperly_of_serving backend hserving
    refine List.flatMap_congr fun r hr => ?_
    exact hcomplete hno r hr (hproper r hr)

/-- A call that reads the sample request, on a socket that takes ten bytes and no more. -/
def stallingCall : Call where
  errno := 0
  read := .bytes sampleRequest.bytes
  writes i := if i = 0 then .accept 9 else .error eagain

/-- After ten bytes of the response the connection is served on. -/
theorem serve_stallingCall :
    ∃ r c recycle, serve printRequest Codec.new 0 [stallingCall] = ([r], .serving c recycle) ∧
      r.EndsProperly ∧ r.sent ≠ r.response := by
  obtain ⟨c, hcall, hview⟩ := readData_of_whole printRequest stallingCall
    (q := sampleRequest) rfl idle_new
  have hacc : c.accum = ⟨true, true, sampleRequest.body, [], sampleRequest.params⟩ :=
    congrArg Prod.fst hview
  have hparams : c.params = sampleRequest.params := congrArg Accum.params hacc
  have hok : ¬ MalformedBody c.params c.stdin.contents := by
    rw [hparams]
    exact Cgicc.not_malformed_of_not_isMultipart (by decide) _
  obtain ⟨qmap, header, w, hends, hfin⟩ := finish_of_got printRequest stallingCall
    (congrArg Accum.gotRequest hacc) hok
  have hlen := le_length_answer (printRequest qmap header)
  -- ten bytes are taken, and a response is longer than that
  have hcut : WritingFails stallingCall.writes eagain 0
      (answer (printRequest qmap header)).length :=
    .later (k := 9) (by omega) rfl (.here (by omega) rfl)
  cases hends with
  | complete hno => exact absurd hcut (hno eagain)
  | failed e hfails hsplit hne =>
      obtain rfl := writingFails_unique hfails hcut
      have hserve : serve printRequest Codec.new 0 [stallingCall]
          = ([readData printRequest stallingCall Codec.new], .serving c.clearRequest 1) := by
        rw [serve, hcall, hfin, show c.keepConn = true from congrArg Accum.keepConn hacc]
        rfl
      refine ⟨_, _, _, hserve, ?_, ?_⟩
      · rw [hcall, hfin]
        exact ⟨_, _, _, rfl, proper_returnCode.mpr (proper_failureCode.mpr rfl)⟩
      · rw [hcall, hfin]
        intro hsent
        simp only at hsent
        rw [hsplit, List.self_eq_append_right] at hsent
        exact hne hsent

end Cocgi

end FastCgi
