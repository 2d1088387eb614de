import FastCgi.Cocgi
import FastCgi.Mucgi

/-! # No buffer precondition is violated

Every read of the codecs is checked in the model: a header, a role, a content or a length that is
not readable raises a `Fault`, and so does every assertion of the source that does not hold, in a
build with assertions as in one without. The refinement theorems leave no room for any of them, on
any input. -/

namespace FastCgi

/-- Reading bytes and draining the buffer raises no fault, in any state of a codec of `cocgi`. -/
theorem Cocgi.parse_received_ok (c : Codec) (chunk : Bytes) :
    ∃ c', Cocgi.receiveFd c chunk >>= parseFcgiPackage = .ok c' := by
  obtain ⟨c₁, hrecv, -⟩ := receiveFd_ok c chunk
  obtain ⟨c', hparse, -⟩ := c₁.parse_view Cocgi.order
  refine ⟨c', ?_⟩
  rw [hrecv]
  exact hparse

/-- Whatever ends the process of `cocgi` is an exception of the request handler. -/
theorem Cocgi.ended_of_serve (backend : Backend) {c : Codec} {recycle : Nat} {calls : List Call}
    {f : Fault} (h : (serve backend c recycle calls).2 = .ended f) : f = Cgicc.malformedInput := by
  induction calls generalizing c recycle with
  | nil => cases h
  | cons call calls ih =>
      rw [serve] at h
      split at h
      · rename_i f' hout
        obtain ⟨ret, errno, c', hcall⟩ | ⟨invoked, hcall⟩ | ⟨_, _, w, _, c', -, hcall⟩ :=
          readData_cases backend call c
        · rw [hcall] at hout
          cases hout
        · rw [hcall] at hout
          cases hout
          cases h
          rfl
        · rw [hcall] at hout
          cases hout
      · split at h
        · cases h
        · exact ih h

/-- **The codecs violate no buffer precondition**, whatever bytes arrive on a connection and however
they are cut: from every state, every run of `mucgi` and every call of the parse code of `cocgi` is
free of faults, and the only thing that ever ends a run of `readwrite_routine` is an exception of
the request handler. -/
theorem codecs_faultFree :
    (∀ c chunks, ∃ actions c', Mucgi.run c chunks = .ok (actions, c')) ∧
      (∀ c chunk, ∃ c', Cocgi.receiveFd c chunk >>= Cocgi.parseFcgiPackage = .ok c') ∧
      ∀ backend c recycle calls f, (Cocgi.serve backend c recycle calls).2 = .ended f →
        ∃ e, f = .thrown e := by
  refine ⟨fun c chunks => ?_, Cocgi.parse_received_ok, fun backend c recycle calls f h => ?_⟩
  · obtain ⟨c', hrun, -⟩ := Mucgi.run_refines c chunks
    exact ⟨_, c', hrun⟩
  · exact ⟨_, Cocgi.ended_of_serve backend h⟩

end FastCgi
