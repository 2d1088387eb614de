import FastCgi.Assoc.Duplicates
import FastCgi.Handlers

/-! # What the backend sees of a request

Both servers hand the backend a query map, made of the form fields and the uploaded files, and a
header map, made of the parameters and the cookies. They load the query map in different ways:
`doRequest` of `cocgi` assigns every field, so the last value of a name is kept, and `onRequest` of
`mucgi` inserts it, so the first is. `backendInput_eq_iff` says when the backend can tell the
servers apart.

The header maps are the same. In both, cookies are assigned over the parameters:
`headerMap_overlays` says what is there for a name the web server sent. -/

namespace FastCgi

open StdString Assoc

/-! ## The maps as loaded lists -/

/-- The form fields of a request followed by its files, each with its name. The fields of the body
come before those of the query string. -/
def Cgicc.fields (cgi : Cgicc) : List (Bytes × Bytes) :=
  cgi.formData.map (fun e => (e.name, e.value)) ++ cgi.formFiles.map fun f => (f.name, f.data)

/-- A cookie as an entry of the header map. -/
def HTTPCookie.entry (c : HTTPCookie) : Bytes × Bytes := (c.name, c.value)

theorem assignAll_eq_overwrite {α : Type} (name value : α → Bytes) (m : ParamMap)
    (entries : List α) :
    assignAll name value m entries = overwrite m (entries.map fun e => (name e, value e)) := by
  rw [assignAll, overwrite, List.foldl_map]

theorem insertAll_eq_insertNew {α : Type} (name value : α → Bytes) (m : ParamMap)
    (entries : List α) :
    insertAll name value m entries = insertNew m (entries.map fun e => (name e, value e)) := by
  rw [insertAll, insertNew, List.foldl_map]

/-- The query map of `cocgi` keeps the last value of a name. -/
theorem Cocgi.queryMap_eq (cgi : Cgicc) : queryMap cgi = overwrite ∅ cgi.fields := by
  rw [queryMap, assignAll_eq_overwrite, assignAll_eq_overwrite, Cgicc.fields, overwrite, overwrite,
    overwrite, List.foldl_append]

/-- The query map of `mucgi` keeps the first value of a name, when the names of the form fields are
in lower case. -/
theorem Mucgi.queryMap_eq {cgi : Cgicc} (h : ∀ e ∈ cgi.formData, toLowerCopy e.name = e.name) :
    queryMap cgi = insertNew ∅ cgi.fields := by
  have hfields : cgi.formData.map (fun e => (toLowerCopy e.name, e.value))
      = cgi.formData.map fun e => (e.name, e.value) := by
    refine List.map_congr_left fun e he => ?_
    rw [h e he]
  rw [queryMap, insertAll_eq_insertNew, insertAll_eq_insertNew, hfields, Cgicc.fields, insertNew,
    insertNew, insertNew, List.foldl_append]

/-- The header maps of the two servers are the same. -/
theorem headerMap_eq (params : ParamMap) (cgi : Cgicc) :
    Mucgi.headerMap params cgi = Cocgi.headerMap params cgi := by
  have hcopy : assignAll Prod.fst Prod.snd ∅ params.toList = params := by
    rw [assignAll_eq_overwrite]
    simp only [Prod.mk.eta, List.map_id']
    exact overwrite_toList params
  rw [Mucgi.headerMap, hcopy]
  rfl

/-- The maps of the two servers on a request that is parsed. -/
theorem backendInput_of_parse {params params' : ParamMap} {stdin : Buffer} {cgi : Cgicc}
    (hparse : parseInput params stdin = .ok (params', cgi)) :
    Cocgi.backendInput params stdin = .ok (Cocgi.queryMap cgi, Cocgi.headerMap params' cgi) ∧
      Mucgi.backendInput params stdin = .ok (Mucgi.queryMap cgi, Cocgi.headerMap params' cgi) := by
  refine ⟨Cocgi.backendInput_of_parse hparse, ?_⟩
  rw [← headerMap_eq]
  exact Mucgi.backendInput_of_parse hparse

theorem queryMap_eq_iff {cgi : Cgicc}
    (h : ∀ e ∈ cgi.formData, Mucgi.toLowerCopy e.name = e.name) :
    Cocgi.queryMap cgi = Mucgi.queryMap cgi ↔
      ∀ name, firstOf name cgi.fields = lastOf name cgi.fields := by
  rw [Cocgi.queryMap_eq, Mucgi.queryMap_eq h]
  exact overwrite_eq_insertNew_iff cgi.fields

/-! ## The two servers -/

/-- **The two servers present the same request to the backend** iff no name occurs with different
first and last values, on every request that is parsed and whose form fields have names in lower
case. -/
theorem backendInput_eq_iff {params params' : ParamMap} {stdin : Buffer} {cgi : Cgicc}
    (hparse : parseInput params stdin = .ok (params', cgi))
    (hlower : ∀ e ∈ cgi.formData, Mucgi.toLowerCopy e.name = e.name) :
    Cocgi.backendInput params stdin = Mucgi.backendInput params stdin ↔
      ∀ name, firstOf name cgi.fields = lastOf name cgi.fields := by
  obtain ⟨hcocgi, hmucgi⟩ := backendInput_of_parse hparse
  rw [← queryMap_eq_iff hlower, hcocgi, hmucgi]
  constructor
  · intro h
    exact congrArg Prod.fst (Except.ok.inj h)
  · intro h
    rw [h]

/-- The parameters of a request with a query string and nothing else. -/
def queryParams (query : String) : ParamMap :=
  (∅ : ParamMap).insert (literal "QUERY_STRING") (literal query)

/-- Two fields of different names. -/
theorem backendInput_eq_distinct :
    parseInput (queryParams "a=1&b=2") .new
        = .ok ((queryParams "a=1&b=2").accessed,
            ⟨[⟨literal "a", literal "1"⟩, ⟨literal "b", literal "2"⟩], [], []⟩) ∧
      (Cocgi.backendInput (queryParams "a=1&b=2") .new
          = Mucgi.backendInput (queryParams "a=1&b=2") .new ↔
        ∀ name, firstOf name [(literal "a", literal "1"), (literal "b", literal "2")]
          = lastOf name [(literal "a", literal "1"), (literal "b", literal "2")]) := by
  have hparse : parseInput (queryParams "a=1&b=2") .new
      = .ok ((queryParams "a=1&b=2").accessed,
          ⟨[⟨literal "a", literal "1"⟩, ⟨literal "b", literal "2"⟩], [], []⟩) := by
    rw [parseInput_eq]
    rfl
  exact ⟨hparse, backendInput_eq_iff hparse (by decide)⟩

/-- The same field twice: `cocgi` keeps the second value, `mucgi` the first. -/
theorem backendInput_ne_duplicate :
    parseInput (queryParams "a=1&a=2") .new
        = .ok ((queryParams "a=1&a=2").accessed,
            ⟨[⟨literal "a", literal "1"⟩, ⟨literal "a", literal "2"⟩], [], []⟩) ∧
      Cocgi.backendInput (queryParams "a=1&a=2") .new
        ≠ Mucgi.backendInput (queryParams "a=1&a=2") .new := by
  have hparse : parseInput (queryParams "a=1&a=2") .new
      = .ok ((queryParams "a=1&a=2").accessed,
          ⟨[⟨literal "a", literal "1"⟩, ⟨literal "a", literal "2"⟩], [], []⟩) := by
    rw [parseInput_eq]
    rfl
  obtain ⟨hcocgi, hmucgi⟩ := backendInput_of_parse hparse
  refine ⟨hparse, fun h => ?_⟩
  rw [hcocgi, hmucgi] at h
  have hmaps := congrArg Prod.fst (Except.ok.inj h)
  have hfirst := (queryMap_eq_iff (by decide)).mp hmaps (literal "a")
  exact absurd hfirst (by decide)

/-! ## Cookies over parameters -/

/-- The accesses of the handlers leave the parameters that were sent as they are. -/
theorem getElem?_accessed {params : ParamMap} {name : Bytes} (h : name ∈ params) :
    params.accessed[name]? = params[name]? := by
  have hkeep : ∀ {m : ParamMap} (other : Bytes), name ∈ m →
      (m.insertIfNew other [])[name]? = m[name]? := by
    intro m other hm
    rw [Std.ExtTreeMap.getElem?_insertIfNew, if_neg]
    rintro ⟨heq, hnot⟩
    rw [Std.LawfulEqCmp.compare_eq_iff_eq] at heq
    rw [heq] at hnot
    exact hnot hm
  have hmem : ∀ {m : ParamMap} (other : Bytes), name ∈ m → name ∈ m.insertIfNew other [] := by
    intro m other hm
    exact Std.ExtTreeMap.mem_insertIfNew.mpr (.inr hm)
  rw [ParamMap.accessed, hkeep _ (hmem _ (hmem _ h)), hkeep _ (hmem _ h), hkeep _ h]

/-- **Cookies are assigned over the parameters**: in the header map of both servers, a name the web
server sent has the value of the last cookie of that name in `HTTP_COOKIE`, or else the value that
was sent. -/
theorem headerMap_overlays (params : ParamMap) (stdin : Buffer)
    (hok : ¬ MalformedBody params stdin.contents) :
    ∃ qmap qmap' header, Cocgi.backendInput params stdin = .ok (qmap, header) ∧
      Mucgi.backendInput params stdin = .ok (qmap', header) ∧
      ∀ name ∈ params, header[name]?
        = (lastOf name ((Cgicc.cookiesOf (params.value "HTTP_COOKIE")).map HTTPCookie.entry)).or
            params[name]? := by
  obtain ⟨cgi, hparse, hcookies⟩ := parseInput_ok hok
  obtain ⟨hcocgi, hmucgi⟩ := backendInput_of_parse hparse
  refine ⟨_, _, _, hcocgi, hmucgi, ?_⟩
  intro name hname
  rw [Cocgi.headerMap, assignAll_eq_overwrite, getElem?_overwrite, hcookies,
    getElem?_accessed hname]
  rfl

/-- The header map **agrees with the parameters** on every name the web server sent. -/
def AgreesWithParams (params header : ParamMap) : Prop :=
  ∀ name ∈ params, header[name]? = params[name]?

/-- A request with a cookie that has the name of a parameter. -/
def spoofedParams : ParamMap :=
  ((∅ : ParamMap).insert (literal "REMOTE_ADDR") (literal "10.0.0.1")).insert
    (literal "HTTP_COOKIE") (literal "REMOTE_ADDR=1.2.3.4")

theorem not_malformedBody_spoofedParams :
    ¬ MalformedBody spoofedParams Buffer.new.contents :=
  Cgicc.not_malformed_of_not_isMultipart (by decide) _

theorem headerMap_overlays_spoofed :
    ¬ MalformedBody spoofedParams Buffer.new.contents ∧
      ∃ qmap qmap' header, Cocgi.backendInput spoofedParams .new = .ok (qmap, header) ∧
        Mucgi.backendInput spoofedParams .new = .ok (qmap', header) ∧
        header[literal "REMOTE_ADDR"]? = some (literal "1.2.3.4") := by
  obtain ⟨qmap, qmap', header, hcocgi, hmucgi, hheader⟩ :=
    headerMap_overlays spoofedParams .new not_malformedBody_spoofedParams
  refine ⟨not_malformedBody_spoofedParams, qmap, qmap', header, hcocgi, hmucgi, ?_⟩
  rw [hheader _ (by decide)]
  decide

/-- The cookie replaces the address the web server sent. -/
theorem not_agreesWithParams_spoofed :
    ∃ qmap qmap' header, Cocgi.backendInput spoofedParams .new = .ok (qmap, header) ∧
      Mucgi.backendInput spoofedParams .new = .ok (qmap', header) ∧
      ¬ AgreesWithParams spoofedParams header := by
  obtain ⟨cgi, hparse, hcookies⟩ := parseInput_ok not_malformedBody_spoofedParams
  obtain ⟨hcocgi, hmucgi⟩ := backendInput_of_parse hparse
  refine ⟨_, _, _, hcocgi, hmucgi, fun hagrees => ?_⟩
  have haddr := hagrees (literal "REMOTE_ADDR") (by decide)
  rw [Cocgi.headerMap, assignAll_eq_overwrite, getElem?_overwrite, hcookies] at haddr
  exact absurd haddr (by decide)

end FastCgi
