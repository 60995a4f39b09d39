import Liso.Parse.Text

/-!
# Absolute targets

The parser compares the whole target with `http://` and with `https://`, where only its beginning
should be one of them. So an absolute target is never divided into its host and its path:
`absolute_never` says that the request behind such a request line differs from the one behind a
request line with the path alone, or does not have the host.
-/

namespace Liso

open Cut (IsLine)
open Words (words)

variable {r : Req} {b : Byte} {l : List Byte} {s host path : List Byte}

/-- `http://` or `https://`, in any case. -/
def IsScheme (s : List Byte) : Prop :=
  strcaseeq s (str "http://") = true ∨ strcaseeq s (str "https://") = true

/-- The request `r` has the host, and the path of the request `r'`. -/
def Normalised (host : List Byte) (r r' : Req) : Prop :=
  r.host = host ∧ cstr r.uri = cstr r'.uri ∧
    (r.params.map fun k => cstr (r.uri.drop k)) = (r'.params.map fun k => cstr (r'.uri.drop k)) ∧
      r.type = r'.type

/-- On a single request line, `req_parse` is the parser of request lines. -/
theorem reqParse_line (hr : r.phase = .start) (hl : IsLine LF l) (b : Byte) :
    (reqParse b r l).2 = (parseStart r ⟨b, l⟩).2 := by
  rw [reqParse, parsePhases_start hr hl]
  rcases parseStart r ⟨b, l⟩ with ⟨st | d, r'⟩ <;> rfl

/-- A scheme begins with an `h`. -/
theorem IsScheme.head (h : IsScheme s) : ∃ c t, s = c :: t ∧ c ≠ 47 ∧ c ≠ 63 ∧ c ≠ 0 := by
  have hk : ∃ k, schemeEnd s = some k := by
    unfold schemeEnd
    rcases h with h | h
    · exact ⟨8, if_pos h⟩
    · split_ifs
      · exact ⟨8, rfl⟩
      · exact ⟨9, rfl⟩
  obtain ⟨k, hk⟩ := hk
  obtain ⟨c, t, rfl, h47, h63⟩ := schemeEnd_head hk
  refine ⟨c, t, rfl, h47, h63, ?_⟩
  rintro rfl
  rcases h with h | h
  · have := (List.cons.inj (eq_of_beq h : _ = _)).1
    exact absurd this (by decide)
  · have := (List.cons.inj (eq_of_beq h : _ = _)).1
    exact absurd this (by decide)

/-- A scheme with something behind it is not a scheme. -/
theorem IsScheme.end_none (h : IsScheme s) {t : List Byte} (ht : t ≠ []) :
    schemeEnd (s ++ t) = none := by
  have hno : ∀ u v : List Byte, ¬ (u.map tolower <+: v.map tolower ∧ u.length < v.length) →
    strcaseeq s u = true →
      strcaseeq (s ++ t) v = false := by
    intro u v hprefix hu
    have hs : s.map tolower = u.map tolower := eq_of_beq hu
    by_contra hv
    have hv : (s ++ t).map tolower = v.map tolower := eq_of_beq (by simpa [strcaseeq] using hv)
    rw [List.map_append, hs] at hv
    refine hprefix ⟨⟨_, hv⟩, ?_⟩
    have hlen := congrArg List.length hv
    rw [List.length_append, List.length_map, List.length_map, List.length_map] at hlen
    have := List.length_pos_of_ne_nil ht
    omega
  unfold schemeEnd
  rcases h with h | h
  · rw [hno _ _ (by simp [str, tolower]) h, hno _ _ (by simp [str, tolower]) h]
    rfl
  · rw [hno _ _ (by simp [str, tolower]) h, hno _ _ (by simp [str, tolower]) h]
    rfl

/-- A copy that goes on behind a string. -/
theorem strncpy0_append {u : List Byte} (hu : 0 ∉ u) {n : ℕ} (hn : u.length ≤ n) (t : List Byte) :
    strncpy0 (u ++ t) n = u ++ strncpy0 t (n - u.length) := by
  rw [strncpy0, List.take_append, List.take_of_length_le hn, cstr, List.takeWhile_append_of_pos]
  · rfl
  · intro c hc
    have hne : c ≠ 0 := fun he => hu (he ▸ hc)
    simpa using hne

/-- A string whose first byte is no terminator. -/
theorem strncpy0_cons {c : Byte} (hc : c ≠ 0) (t : List Byte) {n : ℕ} (hn : 0 < n) :
    strncpy0 (c :: t) n = c :: strncpy0 t (n - 1) :=
  strncpy0_append (u := [c]) (by simpa using Ne.symm hc) hn t

/-- A scheme is a short string. -/
theorem IsScheme.short (h : IsScheme s) : 0 ∉ s ∧ s.length ≤ 8 := by
  have hboth : ∀ u : List Byte, 0 ∉ u.map tolower → u.length ≤ 8 → strcaseeq s u = true → 0 ∉ s ∧
    s.length ≤ 8 := by
    intro u h0 h8 hu
    have hs : s.map tolower = u.map tolower := eq_of_beq hu
    refine ⟨fun hmem => h0 (hs ▸ List.mem_map.2 ⟨0, hmem, rfl⟩), ?_⟩
    have hlen := congrArg List.length hs
    rw [List.length_map, List.length_map] at hlen
    omega
  rcases h with h | h
  · exact hboth _ (by simp [str, tolower]) (by simp [str]) h
  · exact hboth _ (by simp [str, tolower]) (by simp [str]) h

/-- The first byte of the path of a request whose target is not a scheme alone. -/
theorem uri_head {m : Method} {c : Byte} {target : List Byte} (hclean : 0 ∉ c :: target)
    (hreads : ¬ r.Reads (c :: target)) (hc : c ≠ 63) :
    ∃ t, cstr (r.named m (c :: target)).absolute.split.uri = c :: t := by
  have habs : (r.named m (c :: target)).absolute = r.named m (c :: target) :=
    Req.absolute_eq (r := { r with method := m }) hclean hreads
  have huri : cstr (r.named m (c :: target)).uri = c :: target := cstr_storeStr hclean _
  rw [habs, Req.split_uri, huri, List.takeWhile_cons_of_pos (by simpa using hc)]
  exact ⟨_, rfl⟩

/-- A host that is read behind the terminator of the target is a string. -/
theorem absolute_host {m : Method} {target : List Byte} (hclean : 0 ∉ target)
    (hreads : r.Reads target) :
    0 ∉ (r.named m target).absolute.split.host := by
  obtain ⟨k, hk, hmem⟩ := hreads
  have hstr : cstr (r.named m target).uri = target := cstr_storeStr hclean _
  have hhost : (r.named m target).absolute.split.host = (r.named m target).absolute.host := by
    rw [Req.split_eq]
  rw [hhost]
  unfold Req.absolute
  rw [hstr, Option.mem_def.1 hk]
  dsimp only
  have hbehind : (r.named m target).uri.drop k = r.uri.drop k :=
    Req.stored_drop (r := { r with method := m }) (Option.mem_def.1 hk)
  rw [hbehind, if_neg]
  · exact fun h => cstr_clean _ ((List.takeWhile_prefix _).subset h)
  · intro hlen
    have hall :=
      (List.takeWhile_prefix (p := (· != 47)) (l := cstr (r.uri.drop k))).eq_of_length hlen
    rw [List.takeWhile_eq_self_iff] at hall
    have := hall 47 hmem
    simp at this

/-- A request line with an absolute target is never parsed like the one with its path. -/
theorem absolute_never (b : Byte) (r : Req) (l l' s host path : List Byte) (hr : r.phase = .start)
    (hl : IsLine LF l) (hl' : IsLine LF l') (hm : (methodAt ⟨b, l⟩).isSome)
    (hm' : (methodAt ⟨b, l'⟩).isSome) (hs : IsScheme s) (hhost : host ≠ [])
    (hpath : path.head? = some 47) (ht : (words isspace l).getD 1 [] = s ++ host ++ path)
    (ht' : (words isspace l').getD 1 [] = path) :
    ¬ Normalised host (reqParse b r l).2 (reqParse b r l').2 := by
  rintro ⟨h1, h2, -, -⟩
  obtain ⟨m, hm⟩ := Option.isSome_iff_exists.1 hm
  obtain ⟨m', hm'⟩ := Option.isSome_iff_exists.1 hm'
  rw [reqParse_line hr hl, (parseStart_host hm r).2, targetAt_text hl, ht] at h1
  rw [reqParse_line hr hl, reqParse_line hr hl', parseStart_uri hm, parseStart_uri hm',
    targetAt_text hl, targetAt_text hl',
    ht, ht'] at h2
  obtain ⟨h0, h8⟩ := hs.short
  have hroom : s.length < REQ_URISZ := h8.trans_lt (by decide)
  -- The scheme is short, so the array holds all of it.
  have htarget : strncpy0 (s ++ host ++ path) REQ_URISZ = s ++ strncpy0 (host ++ path)
    (REQ_URISZ - s.length) := by
    rw [List.append_assoc, strncpy0_append h0 hroom.le]
  have hclean : ∀ u n, 0 ∉ strncpy0 u n := fun u n => cstr_clean _
  by_cases hreads : r.Reads (strncpy0 (s ++ host ++ path) REQ_URISZ)
  · -- Then the target in the array is the scheme alone, and the host begins with a null byte.
    have hno : 0 ∉ host := h1 ▸ absolute_host (hclean _ _) hreads
    obtain ⟨k, hk, -⟩ := hreads
    obtain ⟨c, t, rfl⟩ := List.exists_cons_of_ne_nil hhost
    have hc : c ≠ 0 := fun he => hno (by simp [he])
    rw [htarget, List.cons_append, strncpy0_cons hc _ (by omega),
      hs.end_none (List.cons_ne_nil _ _)] at hk
    simp at hk
  · -- Both targets are stored as they are, and they begin with different bytes.
    obtain ⟨c, t, rfl, h47, h63, -⟩ := hs.head
    obtain ⟨p, rfl⟩ : ∃ p, path = 47 :: p := by
      cases path with
      | nil => simp at hpath
      | cons x p => exact ⟨p, by rw [List.head?_cons, Option.some.injEq] at hpath; rw [hpath]⟩
    have hcons := hclean (c :: t ++ host ++ 47 :: p) REQ_URISZ
    rw [htarget, List.cons_append] at hreads hcons h2
    obtain ⟨u, hu⟩ := uri_head (m := m) hcons hreads h63
    have hslash : strncpy0 (47 :: p) REQ_URISZ = 47 :: strncpy0 p (REQ_URISZ - 1) :=
      strncpy0_cons (by decide) _ (by decide)
    have hcons' := hclean (47 :: p) REQ_URISZ
    rw [hslash] at hcons' h2
    have hpath' : ∀ k, schemeEnd (47 :: strncpy0 p (REQ_URISZ - 1)) ≠ some k := by
      intro k hk
      obtain ⟨x, t', he, hx, -⟩ := schemeEnd_head hk
      exact hx (List.cons.inj he).1.symm
    obtain ⟨u', hu'⟩ :=
      uri_head (r := r) (m := m') hcons' (fun h => h.elim fun k hk => hpath' k hk.1) (by decide)
    rw [hu, hu'] at h2
    exact h47 (List.cons.inj h2).1

/-- The request lines for `http://a/b` and for `/b`. -/
theorem http_lines :
    (IsLine LF (str "GET http://a/b HTTP/1.1\r\n") ∧ IsLine LF (str "GET /b HTTP/1.1\r\n") ∧
      IsScheme (str "http://")) ∧
      (methodAt ⟨0, str "GET http://a/b HTTP/1.1\r\n"⟩).isSome ∧
        (methodAt ⟨0, str "GET /b HTTP/1.1\r\n"⟩).isSome ∧
      (words isspace (str "GET http://a/b HTTP/1.1\r\n")).getD 1 [] = str "http://" ++
        str "a" ++ str "/b" ∧
      (words isspace (str "GET /b HTTP/1.1\r\n")).getD 1 [] = str "/b" := by
  refine ⟨⟨⟨str "GET http://a/b HTTP/1.1\r", ?_⟩, ⟨str "GET /b HTTP/1.1\r", ?_⟩, .inl ?_⟩, ?_⟩
  · simp [str, LF]
  · simp [str, LF]
  · simp [strcaseeq]
  · decide +kernel

/-- `http://a/b` is not taken apart. -/
theorem absolute_never_http :
    ¬ Normalised (str "a") (reqParse 0 (reqNew []) (str "GET http://a/b HTTP/1.1\r\n")).2
      (reqParse 0 (reqNew []) (str "GET /b HTTP/1.1\r\n")).2 :=
  absolute_never 0 (reqNew []) _ _ (str "http://") (str "a") (str "/b") rfl http_lines.1.1
    http_lines.1.2.1
    http_lines.2.1 http_lines.2.2.1 http_lines.1.2.2 (by simp [str]) (by simp [str])
      http_lines.2.2.2.1
    http_lines.2.2.2.2

/-- The target `http://a/b` stays what it is. -/
theorem absolute_kept :
    ¬ ∀ (b : Byte) (r : Req) (l l' s host path : List Byte), r.phase = .start → IsLine LF l →
    IsLine LF l' → (methodAt ⟨b, l⟩).isSome → (methodAt ⟨b, l'⟩).isSome → IsScheme s →
      host ≠ [] → 47 ∉ host →
    host.length ≤ REQ_HOSTSZ → path.head? = some 47 → (s ++ host ++ path).length ≤ REQ_URISZ →
    (words isspace l).getD 1 [] = s ++ host ++ path → (words isspace l').getD 1 [] = path →
    Normalised host (reqParse b r l).2 (reqParse b r l').2 := by
  intro h
  have hsame := h 0 (reqNew []) (str "GET http://a/b HTTP/1.1\r\n") (str "GET /b HTTP/1.1\r\n")
    (str "http://") (str "a")
    (str "/b") rfl http_lines.1.1 http_lines.1.2.1 http_lines.2.1 http_lines.2.2.1 http_lines.1.2.2
      (by simp [str])
    (by simp [str]) (by simp [str, REQ_HOSTSZ]) (by simp [str]) (by simp [str, REQ_URISZ])
      http_lines.2.2.2.1
    http_lines.2.2.2.2
  exact absurd hsame.2.1 (by decide +kernel)

end Liso
