import UrlShortener.Http.Conn

/-!
# UrlShortener.Http.RequestLine

Which request lines `parse_request_line` accepts, and what it makes of them.

`RequestLine` and `Origin` are the grammar: method, blanks, target, blanks, version, where the
target is a path or an absolute `http` or `https` URI that has one. `parseRequestLine` cuts the text
at `strpbrk`, `strspn` and `strchr`; each cut is matched with the part of the grammar it finds.

`parseRequestLinePtr` is the same function on pointers that may be null. It never reads through a
null pointer.
-/

namespace UrlShortener

/-! ## The scans of the C library -/

theorem strpbrk_some {s accept : Bytes} {i : Nat} (h : strpbrk s accept = some i) :
    ∃ a d r, s = a ++ d :: r ∧ a.length = i ∧ (∀ b ∈ a, b ∉ accept) ∧ d ∈ accept := by
  induction s generalizing i with
  | nil => cases h
  | cons b s ih =>
    simp only [strpbrk, List.findIdx?_cons] at h
    by_cases hb : b ∈ accept
    · rw [if_pos (by simpa using hb)] at h
      cases h
      exact ⟨[], b, s, rfl, rfl, by simp, hb⟩
    · rw [if_neg (by simpa using hb)] at h
      obtain ⟨j, hj, rfl⟩ := Option.map_eq_some_iff.mp h
      obtain ⟨a, d, r, rfl, ha, hfree, hd⟩ := ih hj
      refine ⟨b :: a, d, r, rfl, by simp [ha], ?_, hd⟩
      intro x hx
      rcases List.mem_cons.mp hx with rfl | hx
      · exact hb
      · exact hfree x hx

theorem strchr_some {s : Bytes} {c : UInt8} {k : Nat} (h : strchr s c = some k) :
    ∃ a r, s = a ++ c :: r ∧ a.length = k ∧ c ∉ a := by
  induction s generalizing k with
  | nil => cases h
  | cons b s ih =>
    simp only [strchr, List.findIdx?_cons] at h
    by_cases hb : b = c
    · rw [if_pos (by simpa using hb)] at h
      cases h
      exact ⟨[], s, by rw [hb]; rfl, rfl, by simp⟩
    · rw [if_neg (by simpa using hb)] at h
      obtain ⟨j, hj, rfl⟩ := Option.map_eq_some_iff.mp h
      obtain ⟨a, r, rfl, ha, hfree⟩ := ih hj
      exact ⟨b :: a, r, rfl, by simp [ha], by simp [Ne.symm hb, hfree]⟩

/-- Skipping blanks drops a run of them and stops at the next byte. -/
theorem drop_strspn_append {w s : Bytes} (hw : ∀ b ∈ w, b ∈ blanks)
    (hs : ∀ b, s.head? = some b → b ∉ blanks) :
    (w ++ s).drop (strspn (w ++ s) blanks) = s := by
  induction w with
  | nil => exact drop_strspn_blanks hs
  | cons b w ih =>
    have hb := hw b (by simp)
    have ih := ih fun x hx => hw x (by simp [hx])
    simpa [strspn, List.takeWhile_cons, hb] using ih

/-- What is skipped is a run of blanks, and none is left at the front. -/
theorem exists_blanks (s : Bytes) : ∃ w, s = w ++ s.drop (strspn s blanks) ∧
    (∀ b ∈ w, b ∈ blanks) ∧ ∀ b, (s.drop (strspn s blanks)).head? = some b → b ∉ blanks := by
  induction s with
  | nil => exact ⟨[], rfl, by simp, by simp⟩
  | cons b s ih =>
    by_cases hb : b ∈ blanks
    · obtain ⟨w, hs, hw, hhead⟩ := ih
      have hdrop : (b :: s).drop (strspn (b :: s) blanks) = s.drop (strspn s blanks) := by
        simp [strspn, hb]
      rw [hdrop]
      refine ⟨b :: w, by rw [List.cons_append, ← hs], ?_, hhead⟩
      intro x hx
      rcases List.mem_cons.mp hx with rfl | hx
      · exact hb
      · exact hw x hx
    · have hdrop : (b :: s).drop (strspn (b :: s) blanks) = b :: s := by
        simp [strspn, hb]
      rw [hdrop]
      exact ⟨[], rfl, by simp, by simpa using hb⟩

theorem lower_eq_of_strcasecmp {a b : Bytes} (h : strcasecmp a b = true) : lower a = lower b :=
  eq_of_beq h

/-- Blanks have no other case. -/
theorem not_blank_of_lower {a b : Bytes} (h : lower a = lower b) (hb : ∀ x ∈ b, x ∉ blanks) :
    ∀ x ∈ a, x ∉ blanks := by
  intro x hx hblank
  have hmem : tolower x ∈ lower b := h ▸ List.mem_map_of_mem hx
  obtain ⟨y, hy, hxy⟩ := List.mem_map.mp hmem
  have hx' : tolower x = x := by
    simp only [blanks, List.mem_cons, List.not_mem_nil, or_false] at hblank
    rcases hblank with rfl | rfl <;> decide
  have hy' : y = x := by
    rw [hx'] at hxy
    unfold tolower at hxy
    split at hxy
    · rename_i hcap
      exfalso
      have h97 : 97 ≤ y + 32 := by
        have := UInt8.le_iff_toNat_le.mp hcap.1
        have := UInt8.le_iff_toNat_le.mp hcap.2
        rw [UInt8.le_iff_toNat_le, UInt8.toNat_add]
        simp at *
        omega
      simp only [blanks, List.mem_cons, List.not_mem_nil, or_false] at hblank
      rw [hxy] at h97
      rcases hblank with rfl | rfl
      · exact absurd h97 (by decide)
      · exact absurd h97 (by decide)
    · exact hxy
  exact hb y hy (hy' ▸ hblank)

namespace Http

/-! ## The grammar -/

/-- A run of spaces and tabs. -/
def Blank (w : Bytes) : Prop := w ≠ [] ∧ ∀ b ∈ w, b ∈ blanks

/-- The methods that are served. -/
def Method.served : List Method := [.get, .post, .put, .delete]

/-- The text is method, blanks, target, blanks, version. -/
inductive RequestLine : Bytes → Method → Bytes → Prop
  | mk {name w₁ target w₂ version : Bytes} {m : Method} (served : m ∈ Method.served)
      (method : strcasecmp name m.name = true) (blank₁ : Blank w₁)
      (nonempty : target ≠ []) (unbroken : ∀ b ∈ target, b ∉ blanks) (blank₂ : Blank w₂)
      (http11 : strcasecmp version (ascii "HTTP/1.1") = true) :
      RequestLine (name ++ w₁ ++ target ++ w₂ ++ version) m target

/-- The target is the path `p` itself, or a URI whose part from the first slash after
`http://host` or `https://host` is `p`. -/
inductive Origin : Bytes → Bytes → Prop
  | path {p : Bytes} (slash : p.head? = some 47) : Origin p p
  | absolute {scheme host p : Bytes}
      (http : strcasecmp scheme (ascii "http://") = true ∨
        strcasecmp scheme (ascii "https://") = true)
      (noSlash : 47 ∉ host) (slash : p.head? = some 47) : Origin (scheme ++ host ++ p) p

/-- Up to the first question mark. -/
def pathOf (p : Bytes) : Bytes := p.takeWhile fun b => b != 63

/-- After the first question mark. -/
def queryOf (p : Bytes) : Bytes := (p.dropWhile fun b => b != 63).drop 1

/-! ## The scheme -/

theorem not_scheme_of_slash {p : Bytes} (h : p.head? = some 47) :
    strncasecmp p (ascii "http://") 7 = false ∧ strncasecmp p (ascii "https://") 8 = false := by
  cases p with
  | nil => cases h
  | cons b bs =>
    obtain rfl : b = 47 := by simpa using h
    exact ⟨by simp [strncasecmp, lower, ascii, tolower], by simp [strncasecmp, lower, ascii, tolower]⟩

theorem stripScheme_origin {target : Bytes} (h : target.head? = some 47) :
    Parser.stripScheme target = some target := by
  obtain ⟨h1, h2⟩ := not_scheme_of_slash h
  simp [Parser.stripScheme, h1, h2]

theorem slash_split {p : Bytes} (h : p.head? = some 47) : ∃ r, p = 47 :: r := by
  cases p with
  | nil => cases h
  | cons b r =>
    obtain rfl : b = 47 := by simpa using h
    exact ⟨r, rfl⟩

/-- A text that starts with a scheme, in any case. -/
theorem strncasecmp_append {scheme lit : Bytes} (rest : Bytes) (h : strcasecmp scheme lit = true) :
    scheme.length = lit.length ∧ strncasecmp (scheme ++ rest) lit lit.length = true := by
  have hl := lower_eq_of_strcasecmp h
  have hlen : scheme.length = lit.length := by
    have := congrArg List.length hl
    simpa using this
  refine ⟨hlen, ?_⟩
  rw [strncasecmp, ← hlen, List.take_left, hlen, List.take_length]
  exact beq_iff_eq.mpr hl

theorem stripScheme_of_origin {target p : Bytes} (h : Origin target p) :
    Parser.stripScheme target = some p := by
  cases h with
  | path slash => exact stripScheme_origin slash
  | @absolute scheme host p http noSlash slash =>
    obtain ⟨r, rfl⟩ := slash_split slash
    have h2 := (not_scheme_of_slash slash).2
    rw [List.append_assoc]
    rcases http with http | https
    · obtain ⟨hlen, h1⟩ := strncasecmp_append (host ++ 47 :: r) http
      have hlen : scheme.length = 7 := hlen
      have h1 : strncasecmp (scheme ++ (host ++ 47 :: r)) (ascii "http://") 7 = true := h1
      simp [Parser.stripScheme, h1, List.drop_left' hlen, strchr_append noSlash, h2]
    · obtain ⟨hlen, h1⟩ := strncasecmp_append (host ++ 47 :: r) https
      have hlen : scheme.length = 8 := hlen
      have h1 : strncasecmp (scheme ++ (host ++ 47 :: r)) (ascii "https://") 8 = true := h1
      have h0 : strncasecmp (scheme ++ (host ++ 47 :: r)) (ascii "http://") 7 = false := by
        have hl := lower_eq_of_strcasecmp https
        have htake : lower ((scheme ++ (host ++ 47 :: r)).take 7) = (lower scheme).take 7 := by
          rw [List.take_append_of_le_length (by omega), lower, lower, List.map_take]
        rw [strncasecmp, htake, hl]
        decide
      have hd : (scheme ++ (host ++ 47 :: r)).drop 8 = host ++ 47 :: r := List.drop_left' hlen
      simp only [Parser.stripScheme, h0, Bool.false_eq_true, if_false, Option.bind_eq_bind,
        Option.bind_some, h1, if_true, hd, strchr_append noSlash, Option.map_some, List.drop_left]

theorem origin_of_lit {target lit url : Bytes} {n : Nat} (hn : n = lit.length)
    (hlit : strcasecmp lit (ascii "http://") = true ∨ strcasecmp lit (ascii "https://") = true)
    (h : strncasecmp target lit n = true)
    (hs : (strchr (target.drop n) 47).map (fun k => (target.drop n).drop k) = some url) :
    Origin target url ∧ url.head? = some 47 := by
  obtain ⟨k, hk, rfl⟩ := Option.map_eq_some_iff.mp hs
  obtain ⟨host, r, hdrop, rfl, hfree⟩ := strchr_some hk
  have hurl : (target.drop n).drop host.length = 47 :: r := by
    rw [hdrop, List.drop_left]
  have htarget : target = target.take n ++ host ++ 47 :: r := by
    rw [List.append_assoc, ← hdrop, List.take_append_drop]
  rw [hurl]
  refine ⟨?_, rfl⟩
  have hscheme : lower (target.take n) = lower lit := by
    subst hn
    simpa [strncasecmp] using h
  nth_rewrite 1 [htarget]
  refine .absolute ?_ hfree rfl
  simp only [strcasecmp, hscheme] at hlit ⊢
  exact hlit

theorem origin_of_stripScheme {target url : Bytes} (h : Parser.stripScheme target = some url)
    (hslash : url.head? = some 47) : Origin target url := by
  have h7 : strcasecmp (ascii "http://") (ascii "http://") = true := by decide
  have h8 : strcasecmp (ascii "https://") (ascii "https://") = true := by decide
  simp only [Parser.stripScheme] at h
  by_cases hhttp : strncasecmp target (ascii "http://") 7 = true
  · simp only [hhttp, if_true] at h
    obtain ⟨mid, hmid, h⟩ := Option.bind_eq_some_iff.mp h
    obtain ⟨ho, hm⟩ := origin_of_lit (by decide) (Or.inl h7) hhttp hmid
    rw [if_neg (by simp [(not_scheme_of_slash hm).2])] at h
    cases h
    exact ho
  · simp only [hhttp, Bool.false_eq_true, if_false, Option.bind_eq_bind, Option.bind_some] at h
    by_cases hhttps : strncasecmp target (ascii "https://") 8 = true
    · simp only [hhttps, if_true] at h
      exact (origin_of_lit (by decide) (Or.inr h8) hhttps h).1
    · simp only [hhttps, Bool.false_eq_true, if_false] at h
      cases h
      exact .path hslash

/-! ## The whole line -/

theorem methodOf_iff {name : Bytes} {m : Method} :
    Parser.methodOf name = some m ↔ m ∈ Method.served ∧ strcasecmp name m.name = true := by
  constructor
  · intro h
    unfold Parser.methodOf at h
    split at h
    · cases h; exact ⟨by decide, by assumption⟩
    · split at h
      · cases h; exact ⟨by decide, by assumption⟩
      · split at h
        · cases h; exact ⟨by decide, by assumption⟩
        · split at h
          · cases h; exact ⟨by decide, by assumption⟩
          · cases h
  · rintro ⟨hm, hname⟩
    have hl := lower_eq_of_strcasecmp hname
    simp only [Method.served, List.mem_cons, List.not_mem_nil, or_false] at hm
    rcases hm with rfl | rfl | rfl | rfl <;>
      (simp only [Parser.methodOf, strcasecmp, hl]; decide)

theorem served_not_blank {m : Method} (hm : m ∈ Method.served) : ∀ b ∈ m.name, b ∉ blanks := by
  simp only [Method.served, List.mem_cons, List.not_mem_nil, or_false] at hm
  rcases hm with rfl | rfl | rfl | rfl <;> decide +kernel

theorem head_not_blank {s : Bytes} (h : ∀ b ∈ s, b ∉ blanks) : ∀ b, s.head? = some b → b ∉ blanks :=
  fun b hb => h b (List.mem_of_head? hb)

/-- What `parse_request_line` does with `m_url` once the scheme is gone. -/
def Parser.withPath (p : Parser) (m : Method) (url : Bytes) : Parser × HttpCode :=
  if url.head? ≠ some 47 then ({ p with method := m }, .badRequest)
  else
    let req := { p.request with method := m.name }
    let req :=
      match strchr url 63 with
      | some q => { req with query := url.drop (q + 1), path := url.take q }
      | none => { req with path := url }
    ({ p with method := m, request := req, checkState := .header }, .noRequest)

/-- What `parse_request_line` does with a target it has found. -/
def Parser.withTarget (p : Parser) (m : Method) (target : Bytes) : Parser × HttpCode :=
  match stripScheme target with
  | none => ({ p with method := m }, .badRequest)
  | some url => p.withPath m url

theorem parseRequestLine_of_shape {text target : Bytes} {m : Method} (p : Parser)
    (h : RequestLine text m target) : p.parseRequestLine text = p.withTarget m target := by
  obtain ⟨served, method, ⟨hne₁, hw₁⟩, nonempty, unbroken, ⟨hne₂, hw₂⟩, http11⟩ := h
  rename_i name w₁ w₂ version
  have hv : ∀ b ∈ version, b ∉ blanks :=
    not_blank_of_lower (lower_eq_of_strcasecmp http11) (by decide +kernel)
  have hname := not_blank_of_lower (lower_eq_of_strcasecmp method) (served_not_blank served)
  obtain ⟨d₁, w₁, rfl⟩ := List.exists_cons_of_ne_nil hne₁
  obtain ⟨d₂, w₂, rfl⟩ := List.exists_cons_of_ne_nil hne₂
  have hline : name ++ d₁ :: w₁ ++ target ++ d₂ :: w₂ ++ version =
      name ++ d₁ :: (w₁ ++ (target ++ d₂ :: (w₂ ++ version))) := by simp
  have h1 := strpbrk_append (s := w₁ ++ (target ++ d₂ :: (w₂ ++ version))) hname (hw₁ d₁ (by simp))
  have h2 : (w₁ ++ (target ++ d₂ :: (w₂ ++ version))).drop
      (strspn (w₁ ++ (target ++ d₂ :: (w₂ ++ version))) blanks) = target ++ d₂ :: (w₂ ++ version) := by
    refine drop_strspn_append (fun b hb => hw₁ b (by simp [hb])) ?_
    intro b hb
    obtain ⟨t, ts, rfl⟩ := List.exists_cons_of_ne_nil nonempty
    cases hb
    exact unbroken _ (by simp)
  have h3 := strpbrk_append (s := w₂ ++ version) unbroken (hw₂ d₂ (by simp))
  have hrest : ∀ b ∈ w₂, b ∈ blanks := fun b hb => hw₂ b (by simp [hb])
  have h4 := drop_strspn_append hrest (head_not_blank hv)
  rw [hline]
  simp only [Parser.parseRequestLine, h1, drop_past, List.take_left, methodOf_iff.mpr ⟨served, method⟩,
    h2, h3, h4, http11, Parser.withTarget, Parser.withPath]
  rfl

/-- A line that is not refused has the shape. -/
theorem shape_of_parseRequestLine {p : Parser} {text : Bytes}
    (h : (p.parseRequestLine text).2 ≠ .badRequest) :
    ∃ m target, RequestLine text m target := by
  unfold Parser.parseRequestLine at h
  split at h
  · exact absurd rfl h
  · rename_i i hi
    obtain ⟨name, d₁, rest, rfl, rfl, hname, hd₁⟩ := strpbrk_some hi
    rw [drop_past, List.take_left] at h
    simp only at h
    split at h
    · exact absurd rfl h
    · rename_i m hm
      obtain ⟨w₁, hw₁, hall₁, hhead⟩ := exists_blanks rest
      split at h
      · exact absurd rfl h
      · rename_i j hj
        obtain ⟨target, d₂, rest₂, hurl, rfl, hfree, hd₂⟩ := strpbrk_some hj
        rw [hurl, drop_past] at h
        obtain ⟨w₂, hw₂, hall₂, -⟩ := exists_blanks rest₂
        split at h
        · exact absurd rfl h
        · rename_i hversion
          have hne : target ≠ [] := by
            rintro rfl
            rw [hurl] at hhead
            exact hhead d₂ rfl hd₂
          refine ⟨m, target, ?_⟩
          have htext : name ++ d₁ :: rest = name ++ (d₁ :: w₁) ++ target ++ (d₂ :: w₂) ++
              rest₂.drop (strspn rest₂ blanks) := by
            have h₁ : rest = w₁ ++ (target ++ d₂ :: rest₂) := hurl ▸ hw₁
            nth_rewrite 1 [h₁]
            nth_rewrite 1 [hw₂]
            simp
          have blank : ∀ {d : UInt8} {w : Bytes}, d ∈ blanks → (∀ b ∈ w, b ∈ blanks) →
              Blank (d :: w) := by
            intro d w hd hw
            refine ⟨by simp, ?_⟩
            intro b hb
            rcases List.mem_cons.mp hb with rfl | hb
            · exact hd
            · exact hw b hb
          obtain ⟨served, method⟩ := methodOf_iff.mp hm
          rw [htext]
          exact .mk served method (blank hd₁ hall₁) hne hfree (blank hd₂ hall₂)
            (by simpa using hversion)

/-- The line is accepted when its target has a path, and the path is cut at the question mark. -/
theorem withTarget_of_origin {p : Parser} {m : Method} {target url : Bytes} (h : Origin target url)
    (hq : p.request.query = []) : p.withTarget m target =
      ({ p with
          method := m
          checkState := .header
          request := { p.request with method := m.name, path := pathOf url, query := queryOf url } },
        .noRequest) := by
  have hslash : url.head? = some 47 := by
    cases h with
    | path slash => exact slash
    | absolute _ _ slash => exact slash
  simp only [Parser.withTarget, Parser.withPath, stripScheme_of_origin h, hslash, ne_eq, not_true, if_false]
  cases hmark : strchr url 63 with
  | none =>
    have hall : ∀ b ∈ url, (b != 63) = true := by
      intro b hb
      have := List.findIdx?_eq_none_iff.mp hmark b hb
      simpa using this
    have hpath : pathOf url = url := by
      have : (url ++ []).takeWhile (· != 63) = url ++ [].takeWhile (· != 63) :=
        List.takeWhile_append_of_pos hall
      simpa [pathOf] using this
    have hquery : queryOf url = [] := by
      have : (url ++ []).dropWhile (· != 63) = [].dropWhile (· != 63) :=
        List.dropWhile_append_of_pos hall
      simp only [List.append_nil, List.dropWhile_nil] at this
      simp [queryOf, this]
    rw [hpath, hquery, ← hq]
  | some k =>
    obtain ⟨a, r, rfl, rfl, ha⟩ := strchr_some hmark
    have hall : ∀ b ∈ a, (b != 63) = true := by
      intro b hb
      refine bne_iff_ne.mpr ?_
      rintro rfl
      exact ha hb
    have hpath : pathOf (a ++ 63 :: r) = a := by
      rw [pathOf, List.takeWhile_append_of_pos hall]
      simp
    have hquery : queryOf (a ++ 63 :: r) = r := by
      rw [queryOf, List.dropWhile_append_of_pos hall]
      simp
    simp only [hpath, hquery, drop_past, List.take_left]

theorem origin_of_withTarget {p : Parser} {m : Method} {target : Bytes}
    (h : (p.withTarget m target).2 = .noRequest) : ∃ url, Origin target url := by
  unfold Parser.withTarget Parser.withPath at h
  split at h
  · cases h
  · rename_i url hurl
    split at h
    · cases h
    · rename_i hslash
      exact ⟨url, origin_of_stripScheme hurl (by simpa using hslash)⟩

theorem withTarget_code (p : Parser) (m : Method) (target : Bytes) :
    (p.withTarget m target).2 = .noRequest ∨ (p.withTarget m target).2 = .badRequest := by
  unfold Parser.withTarget Parser.withPath
  split
  · exact Or.inr rfl
  · split
    · exact Or.inr rfl
    · exact Or.inl rfl

/-! ## Null pointers -/

/-- `parse_request_line` from the test for `https://` on. -/
def Parser.afterHttpPtr (p : Parser) (m : Method) (mUrl : Option Bytes) :
    Option (Parser × HttpCode) := do
  let url ← mUrl
  let mUrl :=
    if strncasecmp url (ascii "https://") 8 then
      let url := url.drop 8
      (strchr url 47).map url.drop
    else some url
  if mUrl.isNone then return ({ p with method := m }, .badRequest)
  let url ← mUrl
  return p.withPath m url

/-- `parse_request_line` with its two pointers: `none` is null, `some s` points at the C string `s`.
A scan of the C library or a comparison needs what the pointer points at; through a null pointer
there is nothing, and the function has no result. -/
def Parser.parseRequestLinePtr (p : Parser) (text : Bytes) : Option (Parser × HttpCode) := do
  let mUrl := (strpbrk text blanks).map text.drop
  if mUrl.isNone then return (p, .badRequest)
  let url ← mUrl
  let name := text.take (text.length - url.length)
  let url := url.drop 1
  match methodOf name with
  | none => return (p, .badRequest)
  | some m =>
    let url := url.drop (strspn url blanks)
    let mVersion := (strpbrk url blanks).map url.drop
    if mVersion.isNone then return ({ p with method := m }, .badRequest)
    let version ← mVersion
    let url := url.take (url.length - version.length)
    let version := version.drop 1
    let version := version.drop (strspn version blanks)
    if strcasecmp version (ascii "HTTP/1.1") = false then
      return ({ p with method := m }, .badRequest)
    if strncasecmp url (ascii "http://") 7 then
      let url := url.drop 7
      let mUrl := (strchr url 47).map url.drop
      if mUrl.isNone then return ({ p with method := m }, .badRequest)
      p.afterHttpPtr m mUrl
    else p.afterHttpPtr m (some url)

theorem take_before {a r : Bytes} {d : UInt8} :
    (a ++ d :: r).take ((a ++ d :: r).length - (d :: r).length) = a := by
  simp

theorem afterHttpPtr_eq {p : Parser} {m : Method} {url : Bytes} {target : Bytes}
    (h : Parser.stripScheme target = if strncasecmp url (ascii "https://") 8 then
      (strchr (url.drop 8) 47).map (url.drop 8).drop else some url) :
    p.afterHttpPtr m (some url) = some (p.withTarget m target) := by
  unfold Parser.afterHttpPtr Parser.withTarget
  simp only [Option.bind_eq_bind, Option.bind_some, ← h]
  rcases Parser.stripScheme target with _ | url'
  · rfl
  · rfl

theorem withTarget_ptr (p : Parser) (m : Method) (target : Bytes) :
    (if strncasecmp target (ascii "http://") 7 then
      if ((strchr (target.drop 7) 47).map (target.drop 7).drop).isNone then
        some (({ p with method := m } : Parser), HttpCode.badRequest)
      else p.afterHttpPtr m ((strchr (target.drop 7) 47).map (target.drop 7).drop)
    else p.afterHttpPtr m (some target)) = some (p.withTarget m target) := by
  by_cases hh : strncasecmp target (ascii "http://") 7 = true
  · rw [if_pos hh]
    rcases hk : strchr (target.drop 7) 47 with _ | k
    · simp [Parser.withTarget, Parser.stripScheme, hh, hk]
    · simp only [Option.map_some, Option.isNone_some, Bool.false_eq_true, if_false]
      refine afterHttpPtr_eq ?_
      simp only [Parser.stripScheme, hh, hk, if_true, Option.map_some, Option.bind_eq_bind,
        Option.bind_some]
  · rw [if_neg hh]
    refine afterHttpPtr_eq ?_
    simp only [Parser.stripScheme, hh, Bool.false_eq_true, if_false, Option.bind_eq_bind,
      Option.bind_some]

/-- Both pointers are tested before they are used. -/
theorem parseRequestLinePtr_eq (p : Parser) (text : Bytes) :
    p.parseRequestLinePtr text = some (p.parseRequestLine text) := by
  unfold Parser.parseRequestLinePtr Parser.parseRequestLine
  rcases h1 : strpbrk text blanks with _ | i
  · rfl
  · obtain ⟨name, d₁, rest, rfl, rfl, -, -⟩ := strpbrk_some h1
    simp only [Option.map_some, Option.isNone_some, Bool.false_eq_true, if_false, Option.bind_eq_bind,
      Option.bind_some, List.drop_left, take_before, List.take_left, drop_past, List.drop_one,
      List.tail_cons]
    rcases hm : Parser.methodOf name with _ | m
    · rfl
    · rcases Option.eq_none_or_eq_some (strpbrk (rest.drop (strspn rest blanks)) blanks) with
        h2 | ⟨j, h2⟩
      · simp only [h2]
        rfl
      · obtain ⟨target, d₂, rest₂, hurl, rfl, -, -⟩ := strpbrk_some h2
        simp only [h2]
        simp only [hurl, Option.map_some, Option.isNone_some, Bool.false_eq_true, if_false,
          Option.bind_some, List.drop_left, take_before, List.take_left, drop_past, List.tail_cons]
        split
        · rfl
        · exact withTarget_ptr p m target

/-- **The request line.** A line is accepted exactly when it is method, blanks, target, blanks and
version and the target has a path; every other line is refused, and no null pointer is read
through. An accepted line leaves its method in upper case, and the path and the query of its
target. `p` is the parser as `init` leaves it, without a query. -/
theorem request_line_grammar (p : Parser) (text : Bytes) (hq : p.request.query = []) :
    p.parseRequestLinePtr text = some (p.parseRequestLine text) ∧
      ((p.parseRequestLine text).2 = .noRequest ↔
        ∃ m target url, RequestLine text m target ∧ Origin target url) ∧
      ((p.parseRequestLine text).2 ≠ .noRequest → (p.parseRequestLine text).2 = .badRequest) ∧
      ∀ m target url, RequestLine text m target → Origin target url →
        (p.parseRequestLine text).1.request.method = m.name ∧
          (p.parseRequestLine text).1.request.path = pathOf url ∧
          (p.parseRequestLine text).1.request.query = queryOf url := by
  refine ⟨parseRequestLinePtr_eq p text, ⟨?_, ?_⟩, ?_, ?_⟩
  · intro h
    have hne : (p.parseRequestLine text).2 ≠ .badRequest := by rw [h]; simp
    obtain ⟨m, target, hline⟩ := shape_of_parseRequestLine hne
    rw [parseRequestLine_of_shape p hline] at h
    obtain ⟨url, horigin⟩ := origin_of_withTarget h
    exact ⟨m, target, url, hline, horigin⟩
  · rintro ⟨m, target, url, hline, horigin⟩
    rw [parseRequestLine_of_shape p hline, withTarget_of_origin horigin hq]
  · intro h
    by_contra hbad
    obtain ⟨m, target, hline⟩ := shape_of_parseRequestLine hbad
    rw [parseRequestLine_of_shape p hline] at h hbad
    rcases withTarget_code p m target with hc | hc
    · exact h hc
    · exact hbad hc
  · intro m target url hline horigin
    rw [parseRequestLine_of_shape p hline, withTarget_of_origin horigin hq]
    exact ⟨rfl, rfl, rfl⟩

/-- A question mark before the slash belongs to the host. -/
theorem request_line_grammar_absolute :
    (({} : Parser).parseRequestLine (ascii "get  hTTp://h?i/a?b\tHTTP/1.1")).2 = .noRequest ∧
      (({} : Parser).parseRequestLine (ascii "get  hTTp://h?i/a?b\tHTTP/1.1")).1.request.path =
        ascii "/a" := by
  have hline : RequestLine (ascii "get  hTTp://h?i/a?b\tHTTP/1.1") .get (ascii "hTTp://h?i/a?b") :=
    @RequestLine.mk (ascii "get") (ascii "  ") (ascii "hTTp://h?i/a?b") (ascii "\t") (ascii "HTTP/1.1")
      .get (by decide) (by decide) ⟨by decide, by decide +kernel⟩ (by decide) (by decide +kernel)
      ⟨by decide, by decide +kernel⟩ (by decide)
  have horigin : Origin (ascii "hTTp://h?i/a?b") (ascii "/a?b") :=
    @Origin.absolute (ascii "hTTp://") (ascii "h?i") (ascii "/a?b") (Or.inl (by decide)) (by decide)
      (by decide)
  obtain ⟨-, hiff, -, hparts⟩ :=
    request_line_grammar {} (ascii "get  hTTp://h?i/a?b\tHTTP/1.1") rfl
  exact ⟨hiff.mpr ⟨_, _, _, hline, horigin⟩, (hparts _ _ _ hline horigin).2.1⟩

end Http
end UrlShortener
