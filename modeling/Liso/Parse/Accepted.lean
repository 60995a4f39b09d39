import Liso.Parse.Faithful
import Liso.Parse.Absolute
import Liso.Parse.Length

/-!
# What an accepted request is like

The strings of a request are cut out of a head's lines, so what can stand in a line limits what they
hold. `Req.Parsed` collects the limits. The request line sets the request up with them
(`begun_parsed`), a header line keeps them (`addField_parsed`), and so every request that is
accepted has them (`accepted_parsed`). The one string that may hold anything is a host that the
branch for an absolute target found in the array `uri`.
-/

namespace Liso

open Cut (IsLine lines)
open Words (words)

variable {r : Req} {l s : List Byte}

/-! ## Strings without spaces at their ends -/

/-- `strstrip` takes the blanks from the front and from the end. -/
theorem strstrip_eq (s : List Byte) : strstrip s = (s.dropWhile isspace).rdropWhile isspace := rfl

/-- Spaces in front are taken away. -/
theorem strstrip_append_left {a : List Byte} (ha : ∀ c ∈ a, isspace c = true) (s : List Byte) :
    strstrip (a ++ s) = strstrip s := by
  rw [strstrip_eq, strstrip_eq, List.dropWhile_append_of_pos ha]

/-- Spaces at the end are taken away. -/
theorem strstrip_append_right {a : List Byte} (ha : ∀ c ∈ a, isspace c = true) (s : List Byte) :
    strstrip (s ++ a) = strstrip s := by
  have hback : ∀ t : List Byte, (t ++ a).rdropWhile isspace = t.rdropWhile isspace := by
    intro t
    rw [List.rdropWhile, List.rdropWhile, List.reverse_append,
      List.dropWhile_append_of_pos fun c hc => ha c (List.mem_reverse.1 hc)]
  rw [strstrip_eq, strstrip_eq, List.dropWhile_append]
  split
  · rename_i hempty
    rw [List.isEmpty_iff] at hempty
    rw [hempty, List.dropWhile_eq_nil_iff.2 ha]
  · exact hback _

/-- What is trimmed stays as it is. -/
theorem strstrip_strstrip (s : List Byte) : strstrip (strstrip s) = strstrip s := by
  obtain ⟨a, c, hs, ha, hc⟩ := strstrip_split s
  calc strstrip (strstrip s)
      = strstrip (a ++ strstrip s) := (strstrip_append_left ha _).symm
    _ = strstrip (a ++ strstrip s ++ c) := (strstrip_append_right hc _).symm
    _ = strstrip s := by rw [← hs]

/-- A string that begins with a space is not trimmed. -/
theorem strstrip_cons_ne {c : Byte} (hc : isspace c = true) (s : List Byte) :
    strstrip (c :: s) ≠ c :: s := by
  intro h
  have hlen := strstrip_length_le s
  rw [← strstrip_append_left (a := [c]) (by simpa using hc) s, List.singleton_append, h,
    List.length_cons] at hlen
  omega

/-! ## The strings of a header line -/

/-- A string that a header line holds: no null byte or line feed is in it, and no space at its
ends. -/
structure Trimmed (s : List Byte) : Prop where
  /-- It is a string. -/
  clean : 0 ∉ s
  /-- It stands in a line. -/
  line : LF ∉ s
  /-- It is trimmed. -/
  ends : strstrip s = s

/-- The empty text is trimmed. -/
theorem Trimmed.nil : Trimmed [] := ⟨by simp, by simp, rfl⟩

/-- A trimmed copy from a line. -/
theorem trimmed_copy (hl : LF ∉ s) (n : ℕ) : Trimmed (strstrip (strncpy0 s n)) := by
  constructor
  · exact fun h => cstr_clean _ (strstrip_subset _ h)
  · intro h
    have hcopy : LF ∈ (s.take n).takeWhile (· != 0) := strstrip_subset _ h
    exact hl (List.mem_of_mem_take ((List.takeWhile_prefix _).subset hcopy))
  · exact strstrip_strstrip _

/-- `strncpy0` copies no more than its bound. -/
theorem strncpy0_length_le (s : List Byte) (n : ℕ) : (strncpy0 s n).length ≤ n :=
  (List.takeWhile_prefix _).length_le.trans (List.length_take_le _ _)

/-- A key ends in front of the colon, and a value in front of the line feed. -/
theorem raw_line (hl : IsLine LF l) (hk : Keyed l) : LF ∉ keyRaw l ∧ LF ∉ valRaw l := by
  obtain ⟨text, rfl, hno⟩ := hl
  obtain ⟨front, hfront⟩ := List.dropWhile_suffix (l := text ++ [LF]) issp
  have hcolon : COLON ∈ (text ++ [LF]).dropWhile issp := by
    have hmem := hk.1
    rw [← List.takeWhile_append_dropWhile (p := issp) (l := text ++ [LF]), List.mem_append] at hmem
    refine hmem.resolve_left fun ht => ?_
    exact absurd (List.mem_takeWhile_imp ht) (by decide)
  unfold keyRaw valRaw
  obtain ⟨k, y, hbs, hnot⟩ := List.eq_append_cons_of_mem hcolon
  have hrun : ∀ c ∈ k, (c != COLON) = true := by
    intro c hc
    have hne : c ≠ COLON := fun he => hnot (he ▸ hc)
    simpa using hne
  rw [hbs] at hfront ⊢
  rw [List.takeWhile_append_of_pos hrun, List.dropWhile_append_of_pos hrun,
    List.takeWhile_cons_of_neg (by simp),
    List.dropWhile_cons_of_neg (by simp), List.append_nil, List.tail_cons]
  -- The line feed is the last byte of the line, and not the colon.
  rcases List.eq_nil_or_concat' y with rfl | ⟨x, c, rfl⟩
  · rw [← List.append_assoc] at hfront
    have hlast := (List.append_inj' hfront rfl).2
    exact absurd (List.cons.inj hlast).1 (by decide)
  · have hl : (front ++ (k ++ COLON :: x)) ++ [c] = text ++ [LF] := by simpa using hfront
    have htext := (List.append_inj' hl rfl).1
    rw [← htext] at hno
    rw [List.dropLast_concat]
    constructor
    · exact fun h => hno (by simp [h])
    · exact fun h => hno (by simp [h])

/-! ## One field more -/

/-- A header in the list of a request. -/
structure Hdr.Parsed (h : Hdr) : Prop where
  /-- The key. -/
  key : Trimmed h.key
  /-- The key ends in front of the colon. -/
  colon : COLON ∉ h.key
  /-- The key fits into its array. -/
  key_size : h.key.length ≤ HDR_KEYSZ
  /-- The value. -/
  val : Trimmed h.val
  /-- The value fits into its array. -/
  val_size : h.val.length ≤ HDR_VALSZ
  /-- The parser does not keep it elsewhere. -/
  ordinary : h.ordinary = true

/-- A header keeps the key and the value of its line. -/
theorem hdrNew_field (l : List Byte) : hdrNew (keyOf l) (valOf l) = ⟨keyOf l, valOf l⟩ := by
  have hk : (keyOf l).length ≤ HDR_KEYSZ := (strstrip_length_le _).trans (strncpy0_length_le _ _)
  have hv : (valOf l).length ≤ HDR_VALSZ := (strstrip_length_le _).trans (strncpy0_length_le _ _)
  rw [hdrNew, strncpy0_eq_take (keyOf_clean l), strncpy0_eq_take (valOf_clean l),
    List.take_of_length_le hk,
    List.take_of_length_le hv]

/-- The field of a header line, if it is ordinary. -/
theorem field_parsed (hl : IsLine LF l) (hk : Keyed l)
    (ho : (Hdr.mk (keyOf l) (valOf l)).ordinary = true) :
    (Hdr.mk (keyOf l) (valOf l)).Parsed := by
  obtain ⟨hkey, hval⟩ := raw_line hl hk
  have hcolon : COLON ∉ keyOf l := by
    intro h
    have hcopy : COLON ∈ ((keyRaw l).take HDR_KEYSZ).takeWhile (· != 0) := strstrip_subset _ h
    have hraw : COLON ∈ keyRaw l := List.mem_of_mem_take ((List.takeWhile_prefix _).subset hcopy)
    exact absurd (List.mem_takeWhile_imp hraw) (by decide)
  exact ⟨trimmed_copy hkey _, hcolon, (strstrip_length_le _).trans (strncpy0_length_le _ _),
    trimmed_copy hval _,
    (strstrip_length_le _).trans (strncpy0_length_le _ _), ho⟩

/-- What a header line does to a request. -/
theorem addField_cases (r : Req) (l : List Byte) :
    r.addField l = r ∨ r.addField l = setHost r (valOf l) ∨
      r.addField l = { r with clen := atoi (valOf l) } ∨
      r.addField l = { r with alive := false } ∨
      (Hdr.mk (keyOf l) (valOf l)).ordinary = true ∧
        r.addField l = { r with hdrs := ⟨keyOf l, valOf l⟩ :: r.hdrs } := by
  unfold Req.addField parseField
  generalize atoi (valOf l) = n
  rw [hdrNew_field]
  cases h1 : strcaseeq (keyOf l) (str "Host") with
  | true => exact .inr (.inl rfl)
  | false =>
    cases h2 : strcaseeq (keyOf l) (str "Content-Length") with
    | true => cases isnum (valOf l) <;> simp
    | false =>
      cases h3 : strcaseeq (keyOf l) (str "Connection") with
      | true => cases strcaseeq (valOf l) (str "close") <;> simp
      | false => exact .inr (.inr (.inr (.inr ⟨by simp [Hdr.ordinary, h1, h2, h3], rfl⟩)))

/-- The host that a header line sets is trimmed. -/
theorem addField_host (hl : IsLine LF l) (hk : Keyed l) (hhost : Trimmed r.host) :
    Trimmed (r.addField l).host := by
  rcases addField_cases r l with h | h | h | h | ⟨-, h⟩ <;> rw [h]
  · exact hhost
  · exact trimmed_copy (raw_line hl hk).2 _
  · exact hhost
  · exact hhost
  · exact hhost

/-! ## The request -/

/-- What the parser has made of a request line and of some header lines. -/
structure Req.Parsed (r : Req) : Prop where
  /-- The method is one of the three. -/
  method : r.method ≠ .other
  /-- The version is a word. -/
  version : 0 ∉ r.version ∧ ∀ c ∈ r.version, isspace c = false
  /-- The version fits into its array. -/
  version_size : r.version.length ≤ REQ_VERSZ
  /-- The parameters were cut off. -/
  mark : 63 ∉ cstr r.uri
  /-- The target is a word, or comes from the branch for an absolute target. -/
  uri : (∀ c ∈ cstr r.uri, isspace c = false) ∨ (cstr r.uri).head? = some 47
  /-- The type is that of the target. -/
  type : r.type = .dynamic ↔ str "/cgi/" <+: cstr r.uri
  /-- The host is a string. -/
  host : 0 ∉ r.host
  /-- The host fits into its array, unless the array was overrun. -/
  host_size : r.overrun = false → r.host.length ≤ REQ_HOSTSZ
  /-- The length is an `int`. -/
  clen : r.clen < 2 ^ 31
  /-- The list holds headers of the head. -/
  hdrs : ∀ h ∈ r.hdrs, h.Parsed

/-- A header line keeps the limits. -/
theorem addField_parsed (hr : r.Parsed) (hl : IsLine LF l) (hk : Keyed l) :
    (r.addField l).Parsed := by
  have hval : Trimmed (valOf l) := trimmed_copy (raw_line hl hk).2 _
  have hlt := atoi_lt (valOf l)
  rcases addField_cases r l with h | h | h | h | ⟨ho, h⟩ <;> rw [h]
  · exact hr
  · refine { hr with host := hval.clean, host_size := fun hover => ?_ }
    have hover : (r.overrun || decide (REQ_HOSTSZ < (valOf l).length)) = false := hover
    rw [Bool.or_eq_false_iff, decide_eq_false_iff_not] at hover
    exact not_lt.1 hover.2
  · generalize atoi (valOf l) = n at hlt ⊢
    exact { hr with clen := hlt }
  · exact { hr with }
  · refine { hr with hdrs := fun x hx => ?_ }
    rcases List.mem_cons.1 hx with rfl | hx
    · exact field_parsed hl hk ho
    · exact hr.hdrs x hx

/-- The branch for an absolute target does nothing, or finds a host and a path in the array. -/
theorem Req.absolute_cases (r : Req) :
    r.absolute = r ∨ ∃ host path, 0 ∉ host ∧ 0 ∉ path ∧ path.head? = some 47 ∧
      r.absolute = { setHost r host with uri := storeStr r.uri 0 path } := by
  unfold Req.absolute
  cases schemeEnd (cstr r.uri) with
  | none => exact .inl rfl
  | some k =>
    dsimp only
    have hclean := cstr_clean (r.uri.drop k)
    generalize cstr (r.uri.drop k) = s at hclean ⊢
    split
    · exact .inl rfl
    · rename_i hlen
      have hsplit := List.takeWhile_append_dropWhile (p := fun b : Byte => b != 47) (l := s)
      have hdrop : s.drop (s.takeWhile (· != 47)).length = s.dropWhile (· != 47) := by
        have h := congrArg (List.drop (s.takeWhile (· != 47)).length) hsplit
        rw [List.drop_left] at h
        exact h.symm
      rw [hdrop]
      refine .inr ⟨_, _, fun h => hclean ((List.takeWhile_prefix _).subset h),
        fun h => hclean ((List.dropWhile_suffix _).subset h), ?_, rfl⟩
      have hhead := List.head?_dropWhile_not (fun b : Byte => b != 47) s
      cases hd : s.dropWhile (· != 47) with
      | nil =>
        rw [hd, List.append_nil] at hsplit
        exact absurd (congrArg List.length hsplit) hlen
      | cons b t =>
        rw [hd] at hhead
        simp at hhead
        rw [hhead, List.head?_cons]

/-- The beginning of a string that has no question mark. -/
theorem prefix_takeWhile {start : List Byte} (h : 63 ∉ start) (s : List Byte) :
    start <+: s.takeWhile (· != 63) ↔ start <+: s := by
  constructor
  · exact fun hp => hp.trans (List.takeWhile_prefix _)
  · rintro ⟨t, rfl⟩
    rw [List.takeWhile_append_of_pos]
    · exact List.prefix_append _ _
    · intro c hc
      have hne : c ≠ 63 := fun he => h (he ▸ hc)
      simpa using hne

/-- The request behind a request line, by what the target became. -/
theorem split_parsed (hm : r.method ≠ .other) (ht : r.type = .static) (hc : r.clen < 2 ^ 31)
    (hh : r.hdrs = []) (hhost : 0 ∉ r.host)
    (hsize : r.overrun = false → r.host.length ≤ REQ_HOSTSZ)
    (huri : (∀ c ∈ cstr r.uri, isspace c = false) ∨ (cstr r.uri).head? = some 47) (s : List Byte)
    (hs : ∀ c ∈ s, isspace c = false) :
    Req.Parsed { r.split with version := strncpy0 s REQ_VERSZ, phase := .header } := by
  have hsplit := r.split_uri
  have hmark : 63 ∉ cstr r.split.uri := by
    rw [hsplit]
    exact fun h => absurd (List.mem_takeWhile_imp h) (by simp)
  have htype : r.split.type = .dynamic ↔ str "/cgi/" <+: cstr r.split.uri := by
    rw [hsplit, prefix_takeWhile (by simp [str]), ← strstartswith_iff, Req.split_eq]
    cases strstartswith (cstr r.uri) (str "/cgi/") <;> simp [ht]
  have hplace : (∀ c ∈ cstr r.split.uri, isspace c = false) ∨
    (cstr r.split.uri).head? = some 47 := by
    rw [hsplit]
    refine huri.imp (fun h c hmem => h c ((List.takeWhile_prefix _).subset hmem)) fun h => ?_
    obtain ⟨t, ht⟩ := List.head?_eq_some_iff.1 h
    rw [ht, List.takeWhile_cons_of_pos (by decide), List.head?_cons]
  have hversion : ∀ c ∈ strncpy0 s REQ_VERSZ, c ∈ s := fun c hmem =>
    List.mem_of_mem_take ((List.takeWhile_prefix _).subset hmem)
  have heq := r.split_eq
  generalize r.split = r' at heq hmark htype hplace
  have hfields : r'.method = r.method ∧ r'.clen = r.clen ∧ r'.hdrs = r.hdrs ∧ r'.host = r.host ∧
      r'.overrun = r.overrun := by
    rw [heq]
    exact ⟨rfl, rfl, rfl, rfl, rfl⟩
  obtain ⟨h1, h2, h3, h4, h5⟩ := hfields
  rw [← h1] at hm
  rw [← h2] at hc
  rw [← h3] at hh
  rw [← h4, ← h5] at hsize
  rw [← h4] at hhost
  exact ⟨hm, ⟨cstr_clean _, fun c hmem => hs c (hversion c hmem)⟩, strncpy0_length_le _ _,
    hmark, hplace, htype, hhost,
    hsize, hc, by simp [hh]⟩

/-- A request line sets the request up with the limits. -/
theorem begun_parsed (r : Req) {m : Method} (hm : m ≠ .other) (l : List Byte) :
    ((reqReset r).begun m l).Parsed := by
  have hword : ∀ n, ∀ c ∈ (words isspace l).getD n [], isspace c = false := by
    intro n c hc
    rw [List.getD_eq_getElem?_getD] at hc
    cases hn : (words isspace l)[n]? with
    | none => simp [hn] at hc
    | some w =>
      rw [hn] at hc
      exact Words.not_of_mem (List.mem_of_getElem? hn) hc
  have hclean : 0 ∉ strncpy0 ((words isspace l).getD 1 []) REQ_URISZ := cstr_clean _
  have htarget : ∀ c ∈ strncpy0 ((words isspace l).getD 1 []) REQ_URISZ, isspace c = false :=
    fun c hc =>
    hword 1 c (List.mem_of_mem_take ((List.takeWhile_prefix _).subset hc))
  unfold Req.begun
  generalize strncpy0 ((words isspace l).getD 1 []) REQ_URISZ = target at hclean htarget
  have hlt : (-1 : ℤ) < 2 ^ 31 := by decide
  have huri : ∀ c ∈ cstr ((reqReset r).named m target).uri, isspace c = false := by
    rwa [show cstr ((reqReset r).named m target).uri = target from cstr_storeStr hclean _]
  rcases ((reqReset r).named m target).absolute_cases with h | ⟨host, path, hhost, hpath, hslash, h⟩
    <;> rw [h]
  · exact split_parsed hm rfl hlt rfl (by simp [reqReset, Req.named, Req.stored])
      (fun _ => Nat.zero_le _) (.inl huri) _
      (hword 2)
  · refine split_parsed hm rfl hlt rfl hhost (fun hover => ?_) (.inr ?_) _ (hword 2)
    · have hover : (_ || decide (REQ_HOSTSZ < host.length)) = false := hover
      rw [Bool.or_eq_false_iff, decide_eq_false_iff_not] at hover
      exact not_lt.1 hover.2
    · show (cstr (storeStr _ 0 path)).head? = some 47
      rw [cstr_storeStr hpath, hslash]

/-- A request that is accepted has parts as the parser makes them. -/
theorem accepted_parsed {chunks : List (Byte × List Byte)}
    (hchunks : ∀ chunk ∈ chunks, chunk.2.getLast? = some LF) (r : Req)
    (hs : (parseChunks (reqReset r) chunks).1 = none)
    (hb : (parseChunks (reqReset r) chunks).2.phase = .body) :
    (parseChunks (reqReset r) chunks).2.Parsed ∧ 0 ≤ (parseChunks (reqReset r) chunks).2.clen := by
  obtain ⟨⟨m, hm, hout⟩, hall⟩ := parseChunks_accepted hchunks rfl hs hb
  have hlines : ∀ l ∈ fieldLines (chunks.flatMap Prod.snd), IsLine LF l ∧ Keyed l := fun l hl =>
    ⟨Cut.isLine_of_mem (List.mem_of_mem_tail ((List.takeWhile_prefix _).subset hl)), (hall l hl).1⟩
  have hbegun := begun_parsed r (methodAt_ne_other hm) (startLine (chunks.flatMap Prod.snd))
  rw [hout]
  generalize fieldLines (chunks.flatMap Prod.snd) = fs at hlines
  generalize (reqReset r).begun m (startLine (chunks.flatMap Prod.snd)) = r' at hbegun
  have hfold : (fs.foldl Req.addField r').Parsed := by
    clear hout hall
    induction fs generalizing r' with
    | nil => exact hbegun
    | cons l fs ih =>
      obtain ⟨hl, hk⟩ := hlines l (by simp)
      exact ih (fun l hl => hlines l (List.mem_cons_of_mem _ hl)) _ (addField_parsed hbegun hl hk)
  exact ⟨{ hfold with clen := max_lt hfold.clen (by decide) }, le_max_right _ _⟩

end Liso
