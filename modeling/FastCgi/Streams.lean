import FastCgi.Request
import Mathlib.Logic.Relation

/-! # The three streams of a connection

The records of a connection interleave three streams: the `BEGIN_REQUEST` records, which decide
whether the connection is kept, the `PARAMS` records, and the `STDIN` records. The handlers share
no state, so the parse loop runs the three streams side by side: `Accum.foldl_handle_eq_streams`
gives the accumulators after any list of records as three separate folds, one over the contents of
each type.

What is observed of a codec is then the same for any two lists that carry the same streams.
`Varies` lists the ways in which a sender may lay out the same streams differently, and
`parsers_factor` says that both parse loops factor and cannot tell such lists apart. -/

namespace FastCgi

/-- The contents of the records of one type, in order. -/
def contentsOf (t : FcgiType) (rs : List Record) : List Bytes :=
  (rs.filter fun r => r.type == t.toByte).map Record.contentData

/-! ## One fold for each stream -/

/-- What a `BEGIN_REQUEST` content does to `keepConn`. -/
def keepConnStep (keepConn : Bool) (content : Bytes) : Bool :=
  if Accum.beginAccepted content then Accum.beginFlags content == Codec.kFcgiKeepConn else keepConn

/-- What a `PARAMS` content does to the params stream and the map. -/
def paramsStep (s : Bytes × ParamMap) (content : Bytes) : Bytes × ParamMap :=
  if content = [] then
    (residue (pairFormat.frames s.1).2, storePairs s.2 (pairFormat.frames s.1).1)
  else (s.1 ++ content, s.2)

/-- The accumulators after three streams of contents. -/
def Accum.streams (s : Accum) (begins params stdins : List Bytes) : Accum where
  gotRequest := s.gotRequest || stdins.any List.isEmpty
  keepConn := begins.foldl keepConnStep s.keepConn
  stdin := s.stdin ++ stdins.flatten
  paramsStream := (params.foldl paramsStep (s.paramsStream, s.params)).1
  params := (params.foldl paramsStep (s.paramsStream, s.params)).2

theorem contentsOf_cons_of_type {t : FcgiType} {r : Record} (h : r.type = t.toByte)
    (rs : List Record) : contentsOf t (r :: rs) = r.contentData :: contentsOf t rs := by
  simp [contentsOf, h]

theorem contentsOf_cons_of_ne {t : FcgiType} {r : Record} (h : r.type ≠ t.toByte)
    (rs : List Record) : contentsOf t (r :: rs) = contentsOf t rs := by
  simp [contentsOf, h]

/-- The types of the three streams are told apart by their bytes. -/
theorem FcgiType.toByte_ne {t t' : FcgiType} (h : t ≠ t') : t.toByte ≠ t'.toByte := by
  intro heq
  cases t <;> cases t' <;> first | exact h rfl | exact absurd heq (by decide)

namespace Accum

variable (s : Accum)

theorem streams_begin_cons (content : Bytes) (begins params stdins : List Bytes) :
    s.streams (content :: begins) params stdins
      = (s.onBeginRequest content).2.streams begins params stdins := by
  rw [onBeginRequest, streams, List.foldl_cons, keepConnStep]
  split <;> rfl

theorem streams_params_cons (content : Bytes) (begins params stdins : List Bytes) :
    s.streams begins (content :: params) stdins
      = (s.onParams content).2.streams begins params stdins := by
  rw [onParams, streams, List.foldl_cons, paramsStep]
  split <;> rfl

theorem streams_stdin_cons (content : Bytes) (begins params stdins : List Bytes) :
    s.streams begins params (content :: stdins)
      = (s.onStdin content).streams begins params stdins := by
  rw [onStdin]
  split
  · rename_i hnil
    simp [streams, hnil]
  · rename_i hne
    have hempty : List.isEmpty content = false := by simpa using hne
    simp [streams, hempty]

/-- **The handlers factor into three streams.** -/
theorem foldl_handle_eq_streams (rs : List Record) :
    rs.foldl handle s
      = s.streams (contentsOf .beginRequest rs) (contentsOf .params rs) (contentsOf .stdin rs) := by
  induction rs generalizing s with
  | nil => simp [streams, contentsOf]
  | cons r rs ih =>
      rw [List.foldl_cons, ih]
      cases hcore : r.isCore with
      | false =>
          -- a record of another type is in none of the streams
          rw [s.handle_of_not_isCore hcore]
          simp only [Record.isCore, Bool.or_eq_false_iff, beq_eq_false_iff_ne] at hcore
          rw [contentsOf_cons_of_ne hcore.1.1, contentsOf_cons_of_ne hcore.1.2,
            contentsOf_cons_of_ne hcore.2]
      | true =>
          simp only [Record.isCore, Bool.or_eq_true, beq_iff_eq] at hcore
          have hne : ∀ {t t' : FcgiType}, r.type = t.toByte → t ≠ t' → r.type ≠ t'.toByte := by
            intro t t' ht htt'
            rw [ht]
            exact FcgiType.toByte_ne htt'
          obtain (hb | hp) | hs := hcore
          · rw [s.handle_beginRequest hb, contentsOf_cons_of_type hb, streams_begin_cons,
              contentsOf_cons_of_ne (hne hb (by decide)),
              contentsOf_cons_of_ne (hne hb (by decide))]
          · rw [s.handle_params hp, contentsOf_cons_of_type hp, streams_params_cons,
              contentsOf_cons_of_ne (hne hp (by decide)),
              contentsOf_cons_of_ne (hne hp (by decide))]
          · rw [s.handle_stdin hs, contentsOf_cons_of_type hs, streams_stdin_cons,
              contentsOf_cons_of_ne (hne hs (by decide)),
              contentsOf_cons_of_ne (hne hs (by decide))]

end Accum

/-! ## Laying out the same streams differently -/

/-- The two lists of records differ in one of the ways the codecs do not see. -/
inductive Varies : List Record → List Record → Prop
  /-- The records of the three types are interleaved differently, or framed differently, or other
  records are among them. -/
  | interleaving {rs rs' : List Record} :
      contentsOf .beginRequest rs = contentsOf .beginRequest rs' →
      contentsOf .params rs = contentsOf .params rs' →
      contentsOf .stdin rs = contentsOf .stdin rs' → Varies rs rs'
  /-- One record has another version, id, reserved byte or padding. -/
  | framing {before after : List Record} {r r' : Record} :
      r.type = r'.type → r.contentData = r'.contentData →
      Varies (before ++ r :: after) (before ++ r' :: after)
  /-- A record of another type is inserted. -/
  | insertion {before after : List Record} {r : Record} : r.isCore = false →
      Varies (before ++ after) (before ++ r :: after)
  /-- The content of a `PARAMS` or `STDIN` record is cut in two, neither part empty. -/
  | cutting {before after : List Record} {r r₁ r₂ : Record} :
      r.type = FcgiType.params.toByte ∨ r.type = FcgiType.stdin.toByte →
      r₁.type = r.type → r₂.type = r.type → r₁.contentData ≠ [] → r₂.contentData ≠ [] →
      r.contentData = r₁.contentData ++ r₂.contentData →
      Varies (before ++ r :: after) (before ++ r₁ :: r₂ :: after)

namespace Accum

/-- Two non-empty `PARAMS` or `STDIN` records do what one with both contents does. -/
theorem handle_handle_of_cutting (s : Accum) {r r₁ r₂ : Record}
    (ht : r.type = FcgiType.params.toByte ∨ r.type = FcgiType.stdin.toByte)
    (h₁ : r₁.type = r.type) (h₂ : r₂.type = r.type) (hne₁ : r₁.contentData ≠ [])
    (hne₂ : r₂.contentData ≠ []) (hc : r.contentData = r₁.contentData ++ r₂.contentData) :
    (s.handle r₁).handle r₂ = s.handle r := by
  have hne : r.contentData ≠ [] := by
    rw [hc]
    exact List.append_ne_nil_of_left_ne_nil hne₁ _
  rcases ht with hp | hs
  · rw [s.handle_params (h₁.trans hp), handle_params _ (h₂.trans hp), s.handle_params hp]
    simp only [onParams, if_neg hne, if_neg hne₁, if_neg hne₂]
    rw [hc, List.append_assoc]
  · rw [s.handle_stdin (h₁.trans hs), handle_stdin _ (h₂.trans hs), s.handle_stdin hs]
    simp only [onStdin, if_neg hne, if_neg hne₁, if_neg hne₂]
    rw [hc, List.append_assoc]

theorem foldl_handle_of_varies (s : Accum) {rs rs' : List Record} (h : Varies rs rs') :
    rs.foldl handle s = rs'.foldl handle s := by
  cases h with
  | interleaving hb hp hs =>
      rw [s.foldl_handle_eq_streams rs, s.foldl_handle_eq_streams rs', hb, hp, hs]
  | framing ht hc =>
      rw [List.foldl_append, List.foldl_append, List.foldl_cons, List.foldl_cons, handle, handle,
        ht, hc]
  | insertion hcore =>
      rw [List.foldl_append, List.foldl_append, List.foldl_cons, handle_of_not_isCore _ hcore]
  | cutting ht h₁ h₂ hne₁ hne₂ hc =>
      rw [List.foldl_append, List.foldl_append, List.foldl_cons, List.foldl_cons, List.foldl_cons,
        handle_handle_of_cutting _ ht h₁ h₂ hne₁ hne₂ hc]

/-- Any number of variations, in either direction. -/
theorem foldl_handle_of_eqvGen (s : Accum) {rs rs' : List Record}
    (h : Relation.EqvGen Varies rs rs') : rs.foldl handle s = rs'.foldl handle s := by
  induction h with
  | rel _ _ hvar => exact s.foldl_handle_of_varies hvar
  | refl _ => rfl
  | symm _ _ _ ih => exact ih.symm
  | trans _ _ _ _ _ ih₁ ih₂ => exact ih₁.trans ih₂

end Accum

/-! ## The parse loops -/

/-- Records placed in an empty input buffer are handled, and nothing is left of them. -/
theorem Codec.receive_parse_records (o : NetworkOrder) {c : Codec} (hin : c.input = [])
    (rs : List Record) :
    ∃ c', c.receive (rs.flatMap Record.encode) >>= Codec.parse o = .ok c' ∧
      c'.view = (rs.foldl Accum.handle c.accum, []) := by
  obtain ⟨c', hparse, hview⟩ := c.receive_parse_refines o (rs.flatMap Record.encode)
  have hbytes : c.view.2 ++ rs.flatMap Record.encode = rs.flatMap Record.encode := by
    rw [show c.view.2 = [] from hin, List.nil_append]
  exact ⟨c', hparse, hview.trans (recordFormat.feed_of_append_eq Accum.handle hbytes)⟩

/-- A parse loop **factors into three streams**: from an empty input buffer, whatever complete
records are placed in it, each of the accumulators is what the records of one type make of it. -/
def FactorsIntoStreams (parse : Codec → Except Fault Codec) : Prop :=
  ∀ (c : Codec) (rs : List Record), c.input = [] →
    ∃ c', c.receive (rs.flatMap Record.encode) >>= parse = .ok c' ∧ c'.input = [] ∧
      c'.keepConn = (contentsOf .beginRequest rs).foldl keepConnStep c.keepConn ∧
      (c'.paramsStream.contents, c'.params)
        = (contentsOf .params rs).foldl paramsStep (c.paramsStream.contents, c.params) ∧
      c'.stdin.contents = c.stdin.contents ++ (contentsOf .stdin rs).flatten ∧
      c'.gotRequest = (c.gotRequest || (contentsOf .stdin rs).any List.isEmpty)

/-- A parse loop **does not see variations**: lists of records that vary in how they lay out their
streams lead to the same accumulators. -/
def BlindToVariation (parse : Codec → Except Fault Codec) : Prop :=
  ∀ (c : Codec) (rs rs' : List Record), c.input = [] → Relation.EqvGen Varies rs rs' →
    ∃ d d', c.receive (rs.flatMap Record.encode) >>= parse = .ok d ∧
      c.receive (rs'.flatMap Record.encode) >>= parse = .ok d' ∧ d.view = d'.view

theorem Codec.parse_factorsIntoStreams (o : NetworkOrder) :
    FactorsIntoStreams (Codec.parse o) := by
  intro c rs hin
  obtain ⟨c', hparse, hview⟩ := Codec.receive_parse_records o hin rs
  rw [Accum.foldl_handle_eq_streams] at hview
  have hacc := congrArg Prod.fst hview
  refine ⟨c', hparse, congrArg Prod.snd hview, congrArg Accum.keepConn hacc, ?_,
    congrArg Accum.stdin hacc, congrArg Accum.gotRequest hacc⟩
  exact Prod.ext (congrArg Accum.paramsStream hacc) (congrArg Accum.params hacc)

theorem Codec.parse_blindToVariation (o : NetworkOrder) : BlindToVariation (Codec.parse o) := by
  intro c rs rs' hin hvar
  obtain ⟨d, hparse, hview⟩ := Codec.receive_parse_records o hin rs
  obtain ⟨d', hparse', hview'⟩ := Codec.receive_parse_records o hin rs'
  refine ⟨d, d', hparse, hparse', ?_⟩
  rw [hview, hview', Accum.foldl_handle_of_eqvGen _ hvar]

/-- **Both parse loops factor into three streams**, and lead to the same state on any two lists of
records that lay out the same streams. -/
theorem parsers_factor :
    (FactorsIntoStreams Cocgi.parseFcgiPackage ∧ BlindToVariation Cocgi.parseFcgiPackage) ∧
      FactorsIntoStreams Mucgi.parseRequest ∧ BlindToVariation Mucgi.parseRequest :=
  ⟨⟨Codec.parse_factorsIntoStreams Cocgi.order, Codec.parse_blindToVariation Cocgi.order⟩,
    Codec.parse_factorsIntoStreams Mucgi.order, Codec.parse_blindToVariation Mucgi.order⟩

end FastCgi
