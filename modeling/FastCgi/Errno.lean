import FastCgi.Safety

/-! # What `readData` takes from `errno`

All coroutines of a process share one `errno`. A call that fails sets it, a call that succeeds
leaves in it whatever an earlier call of any connection put there. `readData` compares it with
`EAGAIN` whenever `readv` returned no bytes: after a failure, where the value is its own, and at
the end of the stream, where it is not.

`OwnVerdict` says that what `readData` returns is decided by its own system calls, and
`ownVerdict_iff` that this is so unless the peer has closed its end. Then a stale `EAGAIN` makes
`readwrite_routine` go on polling a closed connection, until it has counted
`maxRecycleCount` idle rounds (`serve_stale_endOfFile`). -/

namespace FastCgi

namespace Cocgi

/-! ## The write loop -/

/-- The result of the write loop does not depend on what was in `errno` before. -/
theorem Written.Ends.code_eq {writes : Nat → WriteOutcome} {i : Nat} {errno errno' : Errno}
    {b : Bytes} {w w' : Written} (h : w.Ends writes i errno b) (h' : w'.Ends writes i errno' b) :
    w.code = w'.code := by
  cases h with
  | complete hno =>
      cases h' with
      | complete _ => rfl
      | failed e he _ _ => exact absurd he (hno e)
  | failed e he _ _ =>
      cases h' with
      | complete hno => exact absurd he (hno e)
      | failed e' he' _ _ => rw [writingFails_unique he he']

/-- It is `ERR_SOCKET_EAGAIN` only when a call of `write` failed with `EAGAIN`. -/
theorem Written.Ends.writingFails_eagain {writes : Nat → WriteOutcome} {i : Nat} {errno : Errno}
    {b : Bytes} {w : Written} (h : w.Ends writes i errno b) (hcode : w.code = .socketEagain) :
    WritingFails writes eagain i b.length := by
  cases h with
  | complete _ => cases hcode
  | failed e he _ _ =>
      simp only [failureCode] at hcode
      split at hcode
      · rename_i heq
        rw [← heq]
        exact he
      · cases hcode

/-! ## The verdict of a call -/

variable (backend : Backend)

/-- The code `readData` returns. -/
def verdict (call : Call) (c : Codec) : Except Fault ErrorCode :=
  (readData backend call c).outcome.map (·.1)

/-- The verdict of a call is **its own**: it does not depend on what was left in `errno`; it is
`ERR_SOCKET_EAGAIN` only when a system call of this call of `readData` failed with `EAGAIN`; and at
the end of the stream it makes `readwrite_routine` close the connection at once. -/
structure OwnVerdict (c : Codec) (read : ReadOutcome) (writes : Nat → WriteOutcome) : Prop where
  independent : ∀ errno errno',
    verdict backend ⟨errno, read, writes⟩ c = verdict backend ⟨errno', read, writes⟩ c
  eagain_own : ∀ errno, verdict backend ⟨errno, read, writes⟩ c = .ok .socketEagain →
    read = .error eagain ∨
      WritingFails writes eagain 0 (readData backend ⟨errno, read, writes⟩ c).response.length
  closes : read = .bytes [] → ∀ errno recycle, ∃ ret,
    verdict backend ⟨errno, read, writes⟩ c = .ok ret ∧ nextRecycle ret recycle = none

theorem idleCode_eq_socketEagain {errno : Errno} (h : idleCode errno = .socketEagain) :
    errno = FastCgi.eagain := by
  rw [idleCode] at h
  split at h
  · assumption
  · cases h

theorem returnCode_eq_socketEagain {keepConn : Bool} {ret : ErrorCode}
    (h : returnCode keepConn ret = .socketEagain) : ret = .socketEagain := by
  rw [returnCode] at h
  split at h
  · cases h
  · exact h

/-- A failure of `readv` decides the verdict by the error it sets. -/
theorem ownVerdict_of_error (c : Codec) (e : Errno) (writes : Nat → WriteOutcome) :
    OwnVerdict backend c (.error e) writes where
  independent _ _ := rfl
  eagain_own _ h := by
    have hcode : idleCode e = .socketEagain := Except.ok.inj h
    exact .inl (congrArg _ (idleCode_eq_socketEagain hcode))
  closes h := by cases h

/-- What follows `parseFcgiPackage` does not look at `errno` before it is set. -/
theorem finish_verdict (c : Codec) (read : ReadOutcome) (writes : Nat → WriteOutcome) :
    (∀ errno errno', (finish backend ⟨errno, read, writes⟩ c).outcome.map (·.1)
        = (finish backend ⟨errno', read, writes⟩ c).outcome.map (·.1)) ∧
      ∀ errno, (finish backend ⟨errno, read, writes⟩ c).outcome.map (·.1) = .ok .socketEagain →
        WritingFails writes eagain 0 (finish backend ⟨errno, read, writes⟩ c).response.length := by
  cases hgot : c.gotRequest with
  | false =>
      have hfin : ∀ errno, finish backend ⟨errno, read, writes⟩ c
          = .quiet (.ok (.socketRead, errno, c)) := fun _ => finish_of_not_got backend hgot
      refine ⟨fun errno errno' => by rw [hfin, hfin]; rfl, fun errno h => ?_⟩
      rw [hfin] at h
      cases h
  | true =>
      by_cases hbad : MalformedBody c.params c.stdin.contents
      · have hfin : ∀ errno, finish backend ⟨errno, read, writes⟩ c
            = ⟨some (c.params, c.stdin.contents), [], [], .error Cgicc.malformedInput⟩ :=
          fun _ => finish_of_malformed backend hgot hbad
        refine ⟨fun errno errno' => by rw [hfin, hfin], fun errno h => ?_⟩
        rw [hfin] at h
        cases h
      · -- the maps and the response are the same for all values of `errno`
        obtain ⟨qmap, header, -, hrun⟩ := completesNormally backend hbad
        have hfin : ∀ errno, ∃ w : Written,
            w.Ends writes 0 errno (answer (backend qmap header)) ∧
              finish backend ⟨errno, read, writes⟩ c
                = ⟨some (c.params, c.stdin.contents), answer (backend qmap header), w.sent,
                    .ok (returnCode c.keepConn w.code, w.errno, c.clearRequest)⟩ := by
          intro errno
          obtain ⟨w, hw, hends⟩ := hrun writes errno
          refine ⟨w, hends, ?_⟩
          rw [finish, if_pos hgot]
          simp only [hw]
        constructor
        · intro errno errno'
          obtain ⟨w, hends, hw⟩ := hfin errno
          obtain ⟨w', hends', hw'⟩ := hfin errno'
          -- the code of the writing does not depend on what was in `errno` before
          rw [hw, hw']
          simp only [Except.map, hends.code_eq hends']
        · intro errno h
          obtain ⟨w, hends, hw⟩ := hfin errno
          rw [hw] at h ⊢
          have hcode : returnCode c.keepConn w.code = .socketEagain := Except.ok.inj h
          exact hends.writingFails_eagain (returnCode_eq_socketEagain hcode)

/-- So is the verdict of a call that read bytes. -/
theorem ownVerdict_of_bytes (c : Codec) {data : Bytes} (hdata : data ≠ [])
    (writes : Nat → WriteOutcome) : OwnVerdict backend c (.bytes data) writes := by
  obtain ⟨c', hparse⟩ := parse_received_ok c data
  have hcall : ∀ errno, readData backend ⟨errno, .bytes data, writes⟩ c
      = finish backend ⟨errno, .bytes data, writes⟩ c' := by
    intro errno
    simp only [readData, if_pos (List.length_pos_iff.mpr hdata), hparse]
  obtain ⟨hsame, heagain⟩ := finish_verdict backend c' (.bytes data) writes
  constructor
  · intro errno errno'
    rw [verdict, verdict, hcall, hcall]
    exact hsame errno errno'
  · intro errno h
    rw [verdict, hcall] at h
    rw [hcall]
    exact .inr (heagain errno h)
  · intro h
    cases h
    exact absurd rfl hdata

/-- At the end of the stream the verdict is read off whatever is in `errno`. -/
theorem verdict_endOfFile (c : Codec) (errno : Errno) (writes : Nat → WriteOutcome) :
    verdict backend ⟨errno, .bytes [], writes⟩ c = .ok (idleCode errno) := rfl

/-- **The verdict of `readData` is its own iff the peer has not closed its end.** -/
theorem ownVerdict_iff (c : Codec) (read : ReadOutcome) (writes : Nat → WriteOutcome) :
    OwnVerdict backend c read writes ↔ read ≠ .bytes [] := by
  constructor
  · rintro h rfl
    -- two values of `errno` with different verdicts
    have hsame := h.independent 0 eagain
    rw [verdict_endOfFile, verdict_endOfFile] at hsame
    cases hsame
  · intro hread
    rcases read with data | e
    · exact ownVerdict_of_bytes backend c (fun hnil => hread (congrArg _ hnil)) writes
    · exact ownVerdict_of_error backend c e writes

/-- On a new connection that the peer closes at once, `EAGAIN` left over by another connection is
returned, and counted as an idle round. -/
theorem not_ownVerdict_new :
    ¬ OwnVerdict printRequest Codec.new (.bytes []) (fun _ => .accept 0) ∧
      verdict printRequest ⟨eagain, .bytes [], fun _ => .accept 0⟩ Codec.new
        = .ok .socketEagain ∧
      nextRecycle .socketEagain 0 = some 1 := by
  refine ⟨fun h => ?_, rfl, rfl⟩
  obtain ⟨ret, hret, hclose⟩ := h.closes rfl eagain 0
  cases hret
  cases hclose

/-- **A connection closed by the peer is polled on** while `EAGAIN` is left in `errno`: the loop
counts one more idle round for each call. -/
theorem serve_stale_endOfFile (c : Codec) (writes : Nat → WriteOutcome) (n recycle : Nat)
    (h : recycle + n ≤ maxRecycleCount) :
    (serve backend c recycle (List.replicate n ⟨eagain, .bytes [], writes⟩)).2
      = .serving c (recycle + n) := by
  induction n generalizing recycle with
  | zero => rfl
  | succ n ih =>
      have hnext : nextRecycle (idleCode eagain) recycle = some (recycle + 1) := by
        rw [show idleCode eagain = .socketEagain from rfl, nextRecycle, if_neg (by omega)]
      have hstep : (serve backend c recycle
          (List.replicate (n + 1) ⟨eagain, .bytes [], writes⟩)).2
            = (serve backend c (recycle + 1)
                (List.replicate n ⟨eagain, .bytes [], writes⟩)).2 := by
        rw [List.replicate_succ, serve]
        simp only [readData, List.length_nil, Nat.lt_irrefl, if_false, Report.quiet, hnext]
      rw [hstep, ih (recycle + 1) (by omega)]
      congr 1
      omega

end Cocgi

end FastCgi
