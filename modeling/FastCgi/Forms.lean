import FastCgi.Text.Search
import FastCgi.BackendMaps

/-! # Form fields and cookies, written and read

The `cgicc` library encodes text for `application/x-www-form-urlencoded` with `form_urlencode`, and
decodes it with `form_urldecode`. Fields that are written that way, with `=` and `&` between them,
are read back by `parseFormInput` (`parseFormInput_encodeForm`), and cookies that are written as
browsers write them by `parseCookies` (`cookiesOf_encodeCookies`). -/

namespace FastCgi

open StdString

namespace Cgicc

/-! ## `form_urlencode` -/

/-- A digit of `charToHex`. -/
def hexChar (digit : UInt8) : UInt8 := digit + (if 9 < digit then 65 - 10 else 48)

/-- `charToHex`. -/
def charToHex (c : UInt8) : Bytes := [hexChar ((c &&& 0xf0) / 16), hexChar (c &&& 0x0f)]

/-- The characters that `form_urlencode` keeps: letters, digits and marks. -/
def isUnreserved (c : UInt8) : Bool :=
  (65 ≤ c && c ≤ 90) || (97 ≤ c && c ≤ 122) || (48 ≤ c && c ≤ 57) ||
    (literal "-_.!~*'()").contains c

/-- `form_urlencode`. -/
def formUrlencode : Bytes → Bytes
  | [] => []
  | c :: src =>
    (if c = 32 then [43] else if isUnreserved c then [c] else 37 :: charToHex c) ++
      formUrlencode src

/-- What a fact about bytes needs. -/
theorem forall_byte {p : UInt8 → Prop} (h : ∀ n < 256, p (UInt8.ofNat n)) (c : UInt8) : p c := by
  have hc := h c.toNat c.toNat_lt
  rwa [UInt8.ofNat_toNat] at hc

theorem charToHex_spec (c : UInt8) :
    isxdigit (hexChar ((c &&& 0xf0) / 16)) = true ∧ isxdigit (hexChar (c &&& 0x0f)) = true ∧
      hexToChar (hexChar ((c &&& 0xf0) / 16)) (hexChar (c &&& 0x0f)) = c := by
  refine forall_byte (p := fun c => isxdigit (hexChar ((c &&& 0xf0) / 16)) = true ∧
    isxdigit (hexChar (c &&& 0x0f)) = true ∧
      hexToChar (hexChar ((c &&& 0xf0) / 16)) (hexChar (c &&& 0x0f)) = c) ?_ c
  decide +kernel

theorem formUrldecode_cons_of_ne {c : UInt8} (hplus : c ≠ 43) (hpercent : c ≠ 37) (src : Bytes) :
    formUrldecode (c :: src) = c :: formUrldecode src := by
  rw [formUrldecode]
  · exact hplus
  · intro a b src' h
    exact absurd h hpercent

/-- **`form_urldecode` undoes `form_urlencode`**. -/
theorem formUrldecode_formUrlencode (src : Bytes) : formUrldecode (formUrlencode src) = src := by
  induction src with
  | nil => rfl
  | cons c src ih =>
      rw [formUrlencode]
      split
      · rename_i hspace
        rw [List.singleton_append, formUrldecode, ih, hspace]
      · split
        · rename_i hkept
          have hplus : c ≠ 43 := by
            rintro rfl
            exact absurd hkept (by decide)
          have hpercent : c ≠ 37 := by
            rintro rfl
            exact absurd hkept (by decide)
          rw [List.singleton_append, formUrldecode_cons_of_ne hplus hpercent, ih]
        · obtain ⟨hfirst, hsecond, hvalue⟩ := charToHex_spec c
          rw [charToHex, List.cons_append, List.cons_append, List.singleton_append, formUrldecode,
            hfirst, hsecond, hvalue, ih]
          rfl

/-- The characters that `form_urlencode` produces. -/
def isEncoded (c : UInt8) : Bool := isUnreserved c || c == 43 || c == 37

theorem isEncoded_of_mem {src : Bytes} {c : UInt8} (h : c ∈ formUrlencode src) :
    isEncoded c = true := by
  induction src with
  | nil => cases h
  | cons d src ih =>
      rw [formUrlencode, List.mem_append] at h
      refine h.elim (fun h => ?_) ih
      split at h
      · rw [List.mem_singleton.mp h]
        decide
      · split at h
        · rename_i hkept
          rw [List.mem_singleton.mp h, isEncoded, hkept]
          rfl
        · have hdigits : isEncoded (hexChar ((d &&& 0xf0) / 16)) = true ∧
              isEncoded (hexChar (d &&& 0x0f)) = true := by
            refine forall_byte (p := fun d => isEncoded (hexChar ((d &&& 0xf0) / 16)) = true ∧
              isEncoded (hexChar (d &&& 0x0f)) = true) ?_ d
            decide +kernel
          rw [charToHex] at h
          simp only [List.mem_cons, List.not_mem_nil, or_false] at h
          rcases h with rfl | rfl | rfl
          · decide
          · exact hdigits.1
          · exact hdigits.2

/-- None of the separators is produced. -/
theorem not_mem_formUrlencode {c : UInt8} (h : isEncoded c = false) (src : Bytes) :
    c ∉ formUrlencode src := by
  intro hmem
  rw [isEncoded_of_mem hmem] at h
  cases h

/-! ## Form fields -/

/-- A field of a form: its name and its value, separated by `=`. -/
def encodeField (e : FormEntry) : Bytes := formUrlencode e.name ++ 61 :: formUrlencode e.value

/-- The fields of a form in `application/x-www-form-urlencoded`, separated by `&`. -/
def encodeForm : List FormEntry → Bytes
  | [] => []
  | [e] => encodeField e
  | e :: es => encodeField e ++ 38 :: encodeForm es

theorem encodeForm_cons (e : FormEntry) (es : List FormEntry) :
    encodeForm (e :: es) = formUrlencode e.name ++ 61 :: (formUrlencode e.value ++
      if es = [] then [] else 38 :: encodeForm es) := by
  cases es with
  | nil => simp [encodeForm, encodeField]
  | cons e' es => simp [encodeForm, encodeField]

theorem encodeForm_ne_nil {es : List FormEntry} (h : es ≠ []) : encodeForm es ≠ [] := by
  cases es with
  | nil => exact absurd rfl h
  | cons e es => simp [encodeForm_cons]

/-- The loop over the pairs reads the fields that are left. -/
theorem parseStandardLoop_encodeForm {data : Bytes} {es : List FormEntry} (hne : es ≠ [])
    (fuel : Nat) {oldPos : Nat} (cgi : Cgicc) (hfuel : data.length < oldPos + fuel)
    (hdata : data.drop oldPos = encodeForm es) :
    parseStandardLoop data fuel oldPos cgi = .ok { cgi with formData := cgi.formData ++ es } := by
  induction es generalizing fuel oldPos cgi with
  | nil => exact absurd rfl hne
  | cons e es ih =>
      rw [encodeForm_cons] at hdata
      have hpos : oldPos ≤ data.length := by
        by_contra hlt
        rw [List.drop_eq_nil_of_le (by omega)] at hdata
        simp at hdata
      cases fuel with
      | zero => omega
      | succ fuel =>
          have hname := find_symbol hdata (not_mem_formUrlencode (by decide) e.name)
          have hdata' : data.drop (oldPos + (formUrlencode e.name).length + 1) =
              formUrlencode e.value ++ if es = [] then [] else 38 :: encodeForm es := by
            rw [Nat.add_assoc, ← List.drop_drop, hdata]
            simp
          have hlength : oldPos + (formUrlencode e.name).length + 1 ≤ data.length := by
            have hlen := congrArg List.length hdata
            simp only [List.length_drop, List.length_append, List.length_cons] at hlen
            omega
          have hsub₁ : substr data oldPos
              (subPos (some (oldPos + (formUrlencode e.name).length)) oldPos) =
                .ok (formUrlencode e.name) := by
            rw [subPos_of_le (Nat.le_add_right _ _), substr_some hpos, hdata,
              Nat.add_sub_cancel_left, List.take_left]
          by_cases hes : es = []
          · -- the last field
            subst hes
            rw [if_pos rfl, List.append_nil] at hdata'
            have hvalue : find data [38] (oldPos + (formUrlencode e.name).length + 1) = none := by
              apply find_symbol_eq_none
              rw [hdata']
              exact not_mem_formUrlencode (by decide) e.value
            have hsub₂ : substr data (oldPos + (formUrlencode e.name).length + 1)
                (subPos none (oldPos + (formUrlencode e.name).length + 1)) =
                  .ok (formUrlencode e.value) := by
              rw [← hdata']
              exact substr_npos hlength
            simp only [parseStandardLoop, show literal "=" = [61] from rfl,
              show literal "&" = [38] from rfl, hname, hvalue, hsub₁, hsub₂, liftM_ok, bind,
              Except.bind, formUrldecode_formUrlencode]
            rfl
          · -- the value ends at the separator, and the rest is the encoding of the other fields
            rw [if_neg hes] at hdata'
            have hvalue := find_symbol hdata' (not_mem_formUrlencode (by decide) e.value)
            have hrest : data.drop (oldPos + (formUrlencode e.name).length + 1 +
                (formUrlencode e.value).length + 1) = encodeForm es := by
              rw [Nat.add_assoc (_ + 1), ← List.drop_drop, hdata']
              simp
            have hsub₂ : substr data (oldPos + (formUrlencode e.name).length + 1)
                (subPos (some (oldPos + (formUrlencode e.name).length + 1 +
                  (formUrlencode e.value).length)) (oldPos + (formUrlencode e.name).length + 1)) =
                  .ok (formUrlencode e.value) := by
              rw [subPos_of_le (Nat.le_add_right _ _), substr_some hlength, hdata',
                Nat.add_sub_cancel_left, List.take_left]
            simp only [parseStandardLoop, show literal "=" = [61] from rfl,
              show literal "&" = [38] from rfl, hname, hvalue, hsub₁, hsub₂, liftM_ok, bind,
              Except.bind, formUrldecode_formUrlencode]
            rw [ih hes _ _ (by omega) hrest]
            simp

/-- Whether a body is parsed as `application/x-www-form-urlencoded`. -/
def isStandard (contentType : Bytes) : Bool :=
  contentType.isEmpty || stringsAreEqual contentType standardType standardType.length

/-- **The fields of a form are read back**, in order. -/
theorem parseFormInput_encodeForm (cgi : Cgicc) (es : List FormEntry) {contentType : Bytes}
    (h : isStandard contentType = true) :
    parseFormInput cgi (encodeForm es) contentType =
      .ok { cgi with formData := cgi.formData ++ es } := by
  unfold isStandard at h
  rw [parseFormInput]
  by_cases hes : es = []
  · subst hes
    simp [encodeForm, pure, Except.pure]
  · have hne := encodeForm_ne_nil hes
    rw [if_neg (by simpa using hne), if_pos h]
    exact parseStandardLoop_encodeForm hes _ cgi (by omega) rfl

/-! ## Cookies -/

/-- A cookie that can be sent: the separators do not occur in it, and its name does not begin with
whitespace. -/
structure Baked (c : HTTPCookie) : Prop where
  equals : 61 ∉ c.name
  name : 59 ∉ c.name
  value : 59 ∉ c.value
  space : ∀ b ∈ c.name.head?, isspace b = false

/-- The cookies of a request, separated by `"; "`. -/
def encodeCookies : List HTTPCookie → Bytes
  | [] => []
  | [c] => c.name ++ 61 :: c.value
  | c :: cs => c.name ++ 61 :: (c.value ++ 59 :: 32 :: encodeCookies cs)

/-- A piece with a cookie in it, behind a space or not. -/
theorem cookieOf_piece {c : HTTPCookie} (h : Baked c) {space : Bytes}
    (hspace : space = [] ∨ space = [32]) :
    cookieOf (space ++ (c.name ++ 61 :: c.value)) = some c := by
  have hequals : 61 ∉ space ++ c.name := by
    rcases hspace with rfl | rfl
    · exact h.equals
    · simpa using h.equals
  have hindex : indexOf [61] (space ++ (c.name ++ 61 :: c.value)) =
      some (space ++ c.name).length := by
    rw [← List.append_assoc]
    exact indexOf_behind hequals c.value
  have hstop : (c.name ++ 61 :: c.value).takeWhile isspace = [] := by
    cases hname : c.name with
    | nil => rfl
    | cons b name =>
        have hb : isspace b = false := h.space b (by rw [hname]; rfl)
        rw [List.cons_append, List.takeWhile_cons_of_neg (by rw [hb]; decide)]
  have hskip : (space ++ (c.name ++ 61 :: c.value)).takeWhile isspace = space := by
    rcases hspace with rfl | rfl
    · rw [List.nil_append, hstop]
    · rw [List.singleton_append, List.takeWhile_cons_of_pos (by decide), hstop]
  rw [cookieOf, show literal "=" = [61] from rfl, hindex, Option.map_some, hskip,
    ← List.append_assoc, List.take_left, List.drop_left]
  have hvalue : (space ++ c.name ++ 61 :: c.value).drop ((space ++ c.name).length + 1) =
      c.value := by
    rw [← List.drop_drop, List.drop_left]
    rfl
  rw [hvalue]

theorem cookiesOf_cut {data rest : Bytes} {piece : Terminated (literal ";")}
    (h : (terminatedBy _ semicolon_ne_nil).cut data = some (piece, rest)) :
    cookiesOf data = (cookieOf piece.1).toList ++ cookiesOf rest := by
  rw [cookiesOf, cookiePieces, (terminatedBy _ semicolon_ne_nil).frames_of_cut_some h]
  simp only [List.map_cons, List.cons_append, List.filterMap_cons]
  cases cookieOf piece.1 <;> rfl

theorem cookiesOf_cut_none {data : Bytes} (h : (terminatedBy _ semicolon_ne_nil).cut data = none) :
    cookiesOf data = (cookieOf data).toList := by
  rw [cookiesOf, cookiePieces, (terminatedBy _ semicolon_ne_nil).frames_of_cut_none h]
  simp only [List.map_nil, List.nil_append, List.filterMap_cons, List.filterMap_nil]
  cases cookieOf data <;> rfl

/-- **The cookies of a request are read back**, in order. -/
theorem cookiesOf_encodeCookies {cs : List HTTPCookie} (h : ∀ c ∈ cs, Baked c) (space : Bytes)
    (hspace : space = [] ∨ space = [32]) (hne : cs ≠ []) :
    cookiesOf (space ++ encodeCookies cs) = cs := by
  induction cs generalizing space with
  | nil => exact absurd rfl hne
  | cons c cs ih =>
      have hc := h c List.mem_cons_self
      -- neither the name nor the value of a cookie holds a semicolon
      have hpiece : 59 ∉ space ++ (c.name ++ 61 :: c.value) := by
        rcases hspace with rfl | rfl <;> simp [hc.name, hc.value]
      cases cs with
      | nil =>
          -- the last piece has no separator behind it
          have hnone : find (space ++ (c.name ++ 61 :: c.value)) (literal ";") 0 = none :=
            find_symbol_eq_none hpiece
          have hcut := cut_of_find_none semicolon_ne_nil hnone
          rw [List.drop_zero] at hcut
          rw [encodeCookies, cookiesOf_cut_none hcut, cookieOf_piece hc hspace]
          rfl
      | cons c' cs =>
          -- the next piece begins with the blank behind the separator, which the induction allows
          let piece : Terminated (literal ";") :=
            ⟨space ++ (c.name ++ 61 :: c.value), indexOf_behind hpiece []⟩
          have hcut := (terminatedBy _ semicolon_ne_nil).cut_encode piece
            (32 :: encodeCookies (c' :: cs))
          have hdata : space ++ encodeCookies (c :: c' :: cs) =
              (terminatedBy _ semicolon_ne_nil).encode piece ++ 32 :: encodeCookies (c' :: cs) := by
            show _ = (space ++ (c.name ++ 61 :: c.value)) ++ [59] ++ _
            simp [encodeCookies]
          rw [hdata, cookiesOf_cut hcut, cookieOf_piece hc hspace]
          have hrest := ih (fun d hd => h d (List.mem_cons_of_mem _ hd)) [32] (.inr rfl)
            (List.cons_ne_nil _ _)
          rw [List.singleton_append] at hrest
          rw [hrest]
          rfl

end Cgicc

end FastCgi
