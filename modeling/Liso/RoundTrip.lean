import Liso.Bounds
import Liso.Parse.Accepted

/-!
# Packing and parsing

`req_pack` writes the lines of a head: the request line, a `Host`, a `Content-Length`, and the other
headers (`packLines`). The parser reads each line back (`host_line`, `length_line`, `hdr_line`), so
the packed form of a request is parsed to the request itself, as long as the packer leaves nothing
out and the parser does not cut or reread anything (`Packable`). `packed_iff` says that this is
needed, too.
-/

namespace Liso

open Cut (IsLine lines)
open Words (words)

variable {r : Req} {h : Hdr} {s key val : List Byte}

/-! ## Numbers -/

/-- The digit of a number below ten. -/
theorem digit_byte {d : ℕ} (hd : d < 10) : (Nat.digitChar d).toNat.toUInt8.toNat = 48 + d := by
  interval_cases d <;> rfl

/-- The digits that are printed denote the number. -/
theorem decimal_dec (n : ℕ) : isnum (dec n) = true ∧ decimal (dec n) = n := by
  have hdec : ∀ n : ℕ, dec (n : ℤ) = (Nat.toDigits 10 n).map fun c => c.toNat.toUInt8 :=
    fun n => by simp [dec]
  simp only [hdec]
  induction n using Nat.strong_induction_on with
  | _ n ih =>
    have hlt : n % 10 < 10 := Nat.mod_lt n (by decide)
    have hdigit : ∀ d < 10, isdigit (Nat.digitChar d).toNat.toUInt8 = true := by decide +kernel
    rw [Nat.toDigits_eq_if (by decide)]
    split
    · rename_i hn
      have hbyte := digit_byte hn
      constructor
      · simpa [isnum] using hdigit n hn
      · simp [decimal, hbyte]
    · rename_i hn
      obtain ⟨ih1, ih2⟩ := ih (n / 10) (by omega)
      have hbyte := digit_byte hlt
      rw [List.map_append]
      constructor
      · rw [isnum, List.all_append, Bool.and_eq_true]
        exact ⟨ih1, by simpa using hdigit _ hlt⟩
      · have hfold : decimal ((Nat.toDigits 10 (n / 10)).map fun c => c.toNat.toUInt8) = n / 10 :=
          ih2
        unfold decimal at hfold ⊢
        rw [List.foldl_append, hfold, List.map_singleton, List.foldl_cons, List.foldl_nil, hbyte]
        omega

/-- A length is read back. -/
theorem atoi_dec {n : ℤ} (h0 : 0 ≤ n) (hn : n < 2 ^ 31) :
    isnum (dec n) = true ∧ atoi (dec n) = n := by
  obtain ⟨k, rfl⟩ := Int.eq_ofNat_of_zero_le h0
  obtain ⟨hnum, hval⟩ := decimal_dec k
  refine ⟨hnum, ?_⟩
  rw [atoi_eq (by omega), hval]

/-! ## The lines of a header -/

/-- The separators that the packer writes. -/
theorem str_sp : str " " = [32] := by simp [str]

/-- The end of a line is a CR and an LF. -/
theorem str_crlf : str "\r\n" = [CR, LF] := by simp [str, CR, LF]

/-- What `req_pack` writes behind a key. -/
theorem str_colon : str ": " = [COLON, 32] := by simp [str, COLON]

/-- The keys that the packer writes itself. -/
theorem packed_keys : ∀ key ∈ [str "Host", str "Content-Length"],
    (0 ∉ key ∧ LF ∉ key ∧ strstrip key = key) ∧ COLON ∉ key ∧ key.length ≤ HDR_KEYSZ ∧ key ≠ [] ∧
      strcaseeq key key = true := by
  simp only [str]
  decide

/-- A key and a value in a line. -/
def fieldLine (key val : List Byte) : List Byte := key ++ str ": " ++ val ++ str "\r\n"

/-- A header line that is packed, by its parts. -/
theorem fieldLine_eq (key val : List Byte) :
    fieldLine key val = key ++ COLON :: (32 :: (val ++ [CR]) ++ [LF]) := by
  simp [fieldLine, str_colon, str_crlf]

/-- A trimmed string does not begin with a space. -/
theorem Trimmed.head (hs : Trimmed s) : ∀ c ∈ s.head?, isspace c = false := by
  intro c hc
  obtain ⟨t, rfl⟩ := List.head?_eq_some_iff.1 hc
  by_contra hsp
  exact strstrip_cons_ne (by simpa using hsp) t hs.ends

/-- The parser skips nothing in front of a key. -/
theorem dropWhile_field (hkey : Trimmed key) (t : List Byte) :
    (key ++ COLON :: t).dropWhile issp = key ++ COLON :: t := by
  cases key with
  | nil => exact List.dropWhile_cons_of_neg (by decide)
  | cons c key =>
    have hsp : isspace c = false := hkey.head c rfl
    have hissp : issp c = false := by
      unfold isspace at hsp
      exact (Bool.or_eq_false_iff.1 hsp).1
    rw [List.cons_append, List.dropWhile_cons_of_neg (by simp [hissp])]

/-- What becomes of a value that is packed and parsed. -/
def reread (val : List Byte) : List Byte := strstrip ((32 :: (val ++ [CR])).take HDR_VALSZ)

/-- A value that is shorter than its array is kept. -/
theorem reread_eq (hval : Trimmed val) (hlen : val.length < HDR_VALSZ) : reread val = val := by
  obtain ⟨n, hn⟩ := Nat.exists_eq_add_one_of_ne_zero (show HDR_VALSZ ≠ 0 by simp [HDR_VALSZ])
  have htake : (32 :: (val ++ [CR])).take HDR_VALSZ = [32] ++
    (val ++ [CR].take (n - val.length)) := by
    rw [hn, List.take_succ_cons, List.take_append, List.take_of_length_le (by omega)]
    rfl
  have hspace : ∀ c ∈ [CR].take (n - val.length), isspace c = true := by
    intro c hc
    rw [List.mem_singleton.1 (List.mem_of_mem_take hc)]
    decide
  rw [reread, htake, strstrip_append_left (by simp [isspace, issp]),
    strstrip_append_right hspace, hval.ends]

/-- A value as long as its array loses its end. -/
theorem reread_length (hval : Trimmed val) :
    (reread val).length ≤ val.length ∧ (reread val).length < HDR_VALSZ := by
  have hlt : (reread val).length < HDR_VALSZ := by
    obtain ⟨n, hn⟩ := Nat.exists_eq_add_one_of_ne_zero (show HDR_VALSZ ≠ 0 by simp [HDR_VALSZ])
    have hle := strstrip_length_le ((val ++ [CR]).take n)
    have hskip := strstrip_append_left (a := [32]) (by simp [isspace, issp]) ((val ++ [CR]).take n)
    rw [List.length_take] at hle
    rw [reread, hn, List.take_succ_cons, ← List.singleton_append, hskip]
    omega
  refine ⟨?_, hlt⟩
  by_cases hlen : val.length < HDR_VALSZ
  · rw [reread_eq hval hlen]
  · omega

/-- The key and the value that the parser reads off a packed line. -/
theorem fieldLine_read (hkey : Trimmed key) (hcolon : COLON ∉ key)
    (hsize : key.length ≤ HDR_KEYSZ) (hval : 0 ∉ val) :
    keyOf (fieldLine key val) = key ∧ valOf (fieldLine key val) = reread val := by
  have hrun : ∀ c ∈ key, (c != COLON) = true := by
    intro c hc
    have hne : c ≠ COLON := fun he => hcolon (he ▸ hc)
    simpa using hne
  have hclean : 0 ∉ 32 :: (val ++ [CR]) := by
    have hcr : (0 : Byte) ≠ CR := by decide
    simp [hval, hcr]
  rw [fieldLine_eq]
  constructor
  · rw [keyOf, keyRaw, dropWhile_field hkey, List.takeWhile_append_of_pos hrun,
      List.takeWhile_cons_of_neg (by simp),
      List.append_nil, strncpy0_eq_take hkey.clean, List.take_of_length_le hsize, hkey.ends]
  · rw [valOf, valRaw, dropWhile_field hkey, List.dropWhile_append_of_pos hrun,
      List.dropWhile_cons_of_neg (by simp),
      List.tail_cons, List.dropLast_concat, strncpy0_eq_take hclean]
    rfl

/-- A packed line is a line, and not a blank one. -/
theorem fieldLine_line (hkey : Trimmed key) (hval : LF ∉ val) :
    IsLine LF (fieldLine key val) ∧ blank (fieldLine key val) = false := by
  have hparts : (LF : Byte) ≠ COLON ∧ (LF : Byte) ≠ 32 ∧ (LF : Byte) ≠ CR := by decide
  rw [fieldLine_eq]
  constructor
  · refine ⟨key ++ COLON :: (32 :: (val ++ [CR])), by simp, ?_⟩
    simp [hkey.line, hval, hparts]
  · rw [blank, dropWhile_field hkey]
    refine beq_eq_false_iff_ne.2 fun he => ?_
    have hmem : COLON ∈ [LF] := he ▸ (by simp)
    exact absurd hmem (by decide)

/-- A header line that is packed has a key if and only if the key is not empty. -/
theorem fieldLine_keyed (hkey : Trimmed key) (hcolon : COLON ∉ key) (val : List Byte) :
    Keyed (fieldLine key val) ↔ key ≠ [] := by
  rw [fieldLine_eq, Keyed, dropWhile_field hkey]
  cases key with
  | nil => simp
  | cons c key =>
    have hne : c ≠ COLON := fun he => hcolon (by simp [he])
    simp [hne]

/-! ## What the lines do -/

/-- The `Host` line that is packed is parsed to the host. -/
theorem host_line (r : Req) (hval : Trimmed val) (hlen : val.length < HDR_VALSZ) :
    r.addField (fieldLine (str "Host") val) = setHost r val := by
  obtain ⟨⟨hnul, hlf, hends⟩, hcolon, hsize, -, heq⟩ := packed_keys (str "Host") (by simp)
  obtain ⟨hkey, hread⟩ := fieldLine_read ⟨hnul, hlf, hends⟩ hcolon hsize hval.clean
  rw [Req.addField, hkey, hread, reread_eq hval hlen, parseField, heq]
  rfl

/-- The `Content-Length` line that is packed is parsed to the length. -/
theorem length_line (r : Req) {n : ℤ} (h0 : 0 ≤ n) (hn : n < 2 ^ 31) :
    Trimmed (dec n) ∧ r.addField (fieldLine (str "Content-Length") (dec n)) =
      { r with clen := n } := by
  obtain ⟨hnum, hatoi⟩ := atoi_dec h0 hn
  have hdigits : ∀ c ∈ dec n, isspace c = false ∧ c ≠ 0 :=
    fun c hc => isdigit_not_space (List.all_eq_true.1 hnum c hc)
  have hclean : 0 ∉ dec n := fun hmem => (hdigits 0 hmem).2 rfl
  have hstrip : strstrip (dec n) = dec n := by
    have hmid :=
      strstrip_mid (a := []) (v := dec n) (c := []) (by simp) (fun c hc => (hdigits c hc).1)
        (by simp)
    rwa [List.nil_append, List.append_nil] at hmid
  have hline : LF ∉ dec n := fun hmem => absurd (hdigits LF hmem).1 (by decide)
  obtain ⟨⟨hnul, hlf, hends⟩, hcolon, hsize, -, heq⟩ := packed_keys (str "Content-Length") (by simp)
  obtain ⟨hkey, hread⟩ := fieldLine_read ⟨hnul, hlf, hends⟩ hcolon hsize hclean
  have hval : Trimmed (dec n) := ⟨hclean, hline, hstrip⟩
  refine ⟨hval, ?_⟩
  have hlen : (dec n).length < HDR_VALSZ := (dec_length (by omega)).trans_lt (by simp [HDR_VALSZ])
  generalize hv : dec n = v at *
  rw [Req.addField, hkey, hread, reread_eq hval hlen, parseField_length heq, hnum,
    if_pos rfl, Option.getD_some, hatoi]

/-- The line of another header is parsed to the header. -/
theorem hdr_line (r : Req) (hp : h.Parsed) :
    r.addField (packHdr h) = { r with hdrs := ⟨h.key, reread h.val⟩ :: r.hdrs } := by
  obtain ⟨hkey, hread⟩ := fieldLine_read hp.key hp.colon hp.key_size hp.val.clean
  have hline : packHdr h = fieldLine h.key h.val := rfl
  have hord := hp.ordinary
  unfold Hdr.ordinary at hord
  simp only [Bool.and_eq_true, Bool.not_eq_true'] at hord
  have hfield := hdrNew_field (packHdr h)
  rw [hline, hkey, hread] at hfield
  rw [Req.addField, hline, hkey, hread, parseField, hord.1.1, hord.1.2, hord.2, hfield]
  rfl

/-! ## The packed head -/

/-- The request line. -/
def packStart (r : Req) : List Byte :=
  reqMethod r ++ str " " ++ cstr r.uri ++ str " " ++ r.version ++ str "\r\n"

/-- The header lines. -/
def packFields (r : Req) : List (List Byte) :=
  fieldLine (str "Host") r.host :: fieldLine (str "Content-Length") (dec r.clen) ::
    r.hdrs.map packHdr

/-- A packed request is its request line, its header lines and an empty line. -/
theorem reqPack_eq (r : Req) :
    reqPack r = packStart r ++ ((packFields r).flatten ++ str "\r\n") := by
  have hhost : str "Host:" ++ str " " = str "Host" ++ str ": " := by simp [str]
  have hlength : str "Content-Length:" ++ str " " = str "Content-Length" ++ str ": " := by
    simp [str]
  rw [reqPack, hhost, hlength]
  simp [packStart, packFields, fieldLine, List.flatMap]

/-- The name of a method is a word. -/
theorem reqMethod_word (r : Req) :
    reqMethod r ≠ [] ∧ ∀ c ∈ reqMethod r, isspace c = false ∧ c ≠ 0 := by
  unfold reqMethod
  cases r.method <;> simp [str, isspace, issp, LF]

/-- There is no null byte in a packed request. -/
theorem reqPack_clean (hr : r.Parsed) (h0 : 0 ≤ r.clen) : 0 ∉ reqPack r := by
  obtain ⟨hval, -⟩ := length_line r h0 hr.clen
  have hmethod : 0 ∉ reqMethod r := fun hmem => ((reqMethod_word r).2 0 hmem).2 rfl
  have huri : 0 ∉ cstr r.uri := cstr_clean _
  have hline : ∀ key val : List Byte, 0 ∉ key → 0 ∉ val → 0 ∉ fieldLine key val := by
    intro key val hkey hval
    have hlit : (0 : Byte) ≠ COLON ∧ (0 : Byte) ≠ 32 ∧ (0 : Byte) ≠ CR ∧
      (0 : Byte) ≠ LF := by decide
    rw [fieldLine_eq]
    simp [hkey, hval, hlit]
  have hfields : 0 ∉ (packFields r).flatten := by
    intro hmem
    obtain ⟨l, hl, hc⟩ := List.mem_flatten.1 hmem
    rw [packFields, List.mem_cons, List.mem_cons, List.mem_map] at hl
    rcases hl with rfl | rfl | ⟨x, hx, rfl⟩
    · exact hline _ _ (packed_keys _ (by simp)).1.1 hr.host hc
    · exact hline _ _ (packed_keys _ (by simp)).1.1 hval.clean hc
    · exact hline _ _ (hr.hdrs x hx).key.clean (hr.hdrs x hx).val.clean hc
  have hlit : 0 ∉ str " " ∧ 0 ∉ str "\r\n" := by
    rw [str_sp, str_crlf]
    decide
  rw [reqPack_eq, packStart]
  simp [hmethod, huri, hr.version.1, hfields, hlit]

/-- A packed request ends in a line feed. -/
theorem reqPack_last (r : Req) : (reqPack r).getLast? = some LF := by
  have hcrlf : str "\r\n" = [CR] ++ [LF] := str_crlf
  rw [reqPack_eq, hcrlf, ← List.append_assoc, ← List.append_assoc, List.getLast?_concat]

/-! ## The request line -/

/-- A run of characters in front of a space. -/
theorem words_run {w : List Byte} (hw : ∀ c ∈ w, isspace c = false) {b : Byte}
    (hb : isspace b = true) (xs : List Byte) :
    words isspace (w ++ b :: xs) = (if w = [] then [] else [w]) ++ words isspace (b :: xs) := by
  split
  · rename_i he
    rw [he]
    rfl
  · rename_i hne
    rw [Words.words_word hne hw hb]
    rfl

/-- The request line, when there is no space in the target. -/
theorem packStart_words (hr : r.Parsed) (hword : ∀ c ∈ cstr r.uri, isspace c = false) :
    IsLine LF (packStart r) ∧ Ended (packStart r) ∧
      words isspace (packStart r) = reqMethod r ::
        ((if cstr r.uri = [] then [] else [cstr r.uri]) ++
        (if r.version = [] then [] else [r.version])) := by
  obtain ⟨hne, hmethod⟩ := reqMethod_word r
  have hlf : isspace LF = true := by decide
  have hline : packStart r = reqMethod r ++ 32 ::
    (cstr r.uri ++ 32 :: (r.version ++ CR :: [LF])) := by
    simp [packStart, str_sp, str_crlf]
  have hno : ∀ s : List Byte, (∀ c ∈ s, isspace c = false) → LF ∉ s := fun s hs hmem => by
    rw [hs LF hmem] at hlf
    exact Bool.noConfusion hlf
  refine ⟨⟨reqMethod r ++ 32 :: (cstr r.uri ++ 32 :: (r.version ++ [CR])), by simp [hline], ?_⟩, ?_,
    ?_⟩
  · have hlit : (LF : Byte) ≠ 32 ∧ (LF : Byte) ≠ CR := by decide
    have h1 := hno _ fun c hc => (hmethod c hc).1
    have h2 := hno _ hword
    have h3 := hno _ hr.version.2
    simp [h1, h2, h3, hlit]
  · exact ⟨reqMethod r ++ 32 :: (cstr r.uri ++ 32 :: r.version), by simp [hline]⟩
  · rw [hline, words_run (fun c hc => (hmethod c hc).1) (by decide), if_neg hne,
      Words.words_sep (by decide),
      words_run hword (by decide), Words.words_sep (by decide), words_run hr.version.2 (by decide),
      Words.words_sep (by decide), Words.words_sep hlf, Words.words_nil, List.append_nil]
    rfl

/-- The first line of a text begins where the text begins. -/
theorem startLine_append {a t : List Byte} (ha : LF ∉ a) (ht : LF ∈ t) :
    startLine (a ++ t) = a ++ startLine t := by
  have hne : lines LF t ≠ [] := by
    intro hnil
    have hall := Cut.flatten_lines LF t
    rw [hnil, List.flatten_nil, List.nil_append] at hall
    have hno := Cut.sep_notMem_rest LF t
    rw [hall] at hno
    exact hno ht
  obtain ⟨l, ls, hl⟩ := List.exists_cons_of_ne_nil hne
  rw [startLine, startLine, (Cut.cut_front ha hl).1, hl]
  rfl

/-- The request line begins with the first byte of the text. -/
theorem startLine_cons {c : Byte} {t : List Byte} (h : LF ∈ c :: t) :
    ∃ y, startLine (c :: t) = c :: y := by
  by_cases hc : c = LF
  · rw [hc, startLine, Cut.lines_sep]
    exact ⟨[], rfl⟩
  · have ht : LF ∈ t := (List.mem_cons.1 h).resolve_left (Ne.symm hc)
    have happend := startLine_append (a := [c]) (by simpa using Ne.symm hc) ht
    exact ⟨startLine t, happend⟩

/-- The packed request line, when it is one. -/
theorem startLine_pack (h : IsLine LF (packStart r)) : startLine (reqPack r) = packStart r := by
  have hall : ∀ l ∈ [packStart r], IsLine LF l := by simpa using h
  have hcut := Cut.lines_flatten hall ((packFields r).flatten ++ str "\r\n")
  rw [List.flatten_singleton] at hcut
  rw [startLine, reqPack_eq, hcut]
  rfl

/-- The word that the parser takes for the target begins with the target, up to a space in it. -/
theorem reread_target (hr : r.Parsed) (hne : cstr r.uri ≠ []) :
    (words isspace (startLine (reqPack r))).getD 1 [] =
      (cstr r.uri).takeWhile (fun c => !isspace c) ∧
      (cstr r.uri).takeWhile (fun c => !isspace c) ≠ [] := by
  obtain ⟨hmne, hmethod⟩ := reqMethod_word r
  have hlf : isspace LF = true := by decide
  have huri := hr.uri
  have hpack : reqPack r = reqMethod r ++ 32 :: (cstr r.uri ++ 32 :: (r.version ++ CR :: LF ::
      ((packFields r).flatten ++ str "\r\n"))) := by
    rw [reqPack_eq, packStart, str_sp, str_crlf]
    simp
  rw [hpack]
  generalize cstr r.uri = u at hne huri ⊢
  -- The first byte of the target is not a space.
  have hhead : ∀ c ∈ u.head?, isspace c = false := by
    intro c hc
    rcases huri with hall | hslash
    · exact hall c (List.mem_of_mem_head? hc)
    · rw [hslash, Option.mem_some_iff] at hc
      rw [← hc]
      decide
  have hword : u.takeWhile (fun c => !isspace c) ≠ [] := by
    obtain ⟨c, u, rfl⟩ := List.exists_cons_of_ne_nil hne
    rw [List.takeWhile_cons_of_pos (by simp [hhead c rfl])]
    exact List.cons_ne_nil _ _
  refine ⟨?_, hword⟩
  -- A space follows the word: one of the target, or that behind it.
  have hrun : ∀ c ∈ u.takeWhile fun c => !isspace c, isspace c = false := fun c hc => by
    simpa using List.mem_takeWhile_imp hc
  have hsplit := List.takeWhile_append_dropWhile (p := fun c => !isspace c) (l := u)
  obtain ⟨x, rest, hrest, hx⟩ : ∃ x rest, (u.dropWhile fun c => !isspace c) ++ 32 ::
    (r.version ++ CR :: LF ::
      ((packFields r).flatten ++ str "\r\n")) = x :: rest ∧ isspace x = true := by
    cases hd : u.dropWhile fun c => !isspace c with
    | nil => exact ⟨32, _, rfl, by decide⟩
    | cons x t =>
      have hx := List.head_dropWhile_not (p := fun c => !isspace c) (l := u) (by simp [hd])
      simp only [hd, List.head_cons, Bool.not_eq_false'] at hx
      exact ⟨x, _, rfl, hx⟩
  have hmem : LF ∈ x :: rest := by
    rw [← hrest]
    simp
  obtain ⟨y, hy⟩ := startLine_cons hmem
  have hno : ∀ s : List Byte, (∀ c ∈ s, isspace c = false) → LF ∉ s := fun s hs hmem => by
    rw [hs LF hmem] at hlf
    exact Bool.noConfusion hlf
  have hfront : LF ∉ reqMethod r ++ 32 :: u.takeWhile fun c => !isspace c := by
    have hlit : (LF : Byte) ≠ 32 := by decide
    have h1 := hno _ fun c hc => (hmethod c hc).1
    have h2 := hno _ hrun
    rw [List.mem_append, List.mem_cons]
    simp only [h1, h2, hlit, or_self, not_false_eq_true]
  have hline : startLine (reqMethod r ++ 32 :: (u ++ 32 :: (r.version ++ CR :: LF ::
      ((packFields r).flatten ++ str "\r\n")))) =
        reqMethod r ++ 32 :: ((u.takeWhile fun c => !isspace c) ++ x :: y) := by
    nth_rewrite 1 [← hsplit]
    rw [List.append_assoc, hrest, ← List.cons_append, ← List.append_assoc,
      startLine_append hfront hmem, hy]
    simp
  rw [hline, words_run (fun c hc => (hmethod c hc).1) (by decide), if_neg hmne,
    Words.words_sep (by decide),
    words_run hrun hx, if_neg hword]
  rfl

/-! ## Parsing again -/

/-- The packed form of `r` is parsed from the fresh request `fresh` to a request that is the same,
and neither of the two has overrun its array `host`. -/
structure Returns (b : Byte) (fresh r : Req) : Prop where
  /-- The first parse. -/
  before : r.overrun = false
  /-- The second parse. -/
  after : (reqParse b fresh (reqPack r)).2.overrun = false
  /-- All bytes are consumed. -/
  consumed : (reqParse b fresh (reqPack r)).1 = (reqPack r).length
  /-- The head is accepted. -/
  phase : (reqParse b fresh (reqPack r)).2.phase = .body
  /-- `method`. -/
  method : (reqParse b fresh (reqPack r)).2.method = r.method
  /-- `uri`. -/
  uri : cstr (reqParse b fresh (reqPack r)).2.uri = cstr r.uri
  /-- `params`. -/
  params :
    ((reqParse b fresh (reqPack r)).2.params.map fun k => cstr
      ((reqParse b fresh (reqPack r)).2.uri.drop k)) =
    r.params.map fun k => cstr (r.uri.drop k)
  /-- `version`. -/
  version : (reqParse b fresh (reqPack r)).2.version = r.version
  /-- `host`. -/
  host : (reqParse b fresh (reqPack r)).2.host = r.host
  /-- `clen`. -/
  clen : (reqParse b fresh (reqPack r)).2.clen = r.clen
  /-- `alive`. -/
  alive : (reqParse b fresh (reqPack r)).2.alive = r.alive
  /-- `type`. -/
  type : (reqParse b fresh (reqPack r)).2.type = r.type
  /-- `hdrs`, in any order. -/
  hdrs : (reqParse b fresh (reqPack r)).2.hdrs.Perm r.hdrs

/-- The request line and the host of `r` are read off its packed form as they are. -/
structure Legible (fresh r : Req) : Prop where
  /-- The array `host` was not overrun. -/
  before : r.overrun = false
  /-- The target is a word. -/
  word : ∀ c ∈ cstr r.uri, isspace c = false
  /-- The target fits into its array. -/
  size : (cstr r.uri).length ≤ REQ_URISZ
  /-- The version is not taken for the target. -/
  target : cstr r.uri ≠ [] ∨ r.version = []
  /-- The branch for an absolute target finds nothing in the array of the fresh request. -/
  scheme : ¬ fresh.Reads (cstr r.uri)
  /-- The host stands in a line, without spaces around it. -/
  host : Trimmed r.host

/-- Nothing of `r` is left out of its packed form, or read otherwise from it. -/
structure Packable (fresh r : Req) : Prop extends Legible fresh r where
  /-- The parameters are not packed. -/
  params : r.params = none
  /-- Neither is `Connection: close`. -/
  alive : r.alive = true
  /-- Each header has a key. -/
  key : ∀ h ∈ r.hdrs, h.key ≠ []
  /-- Each value fits into its array behind a space. -/
  val : ∀ h ∈ r.hdrs, h.val.length < HDR_VALSZ

variable {b : Byte} {f : Req}

/-- The request that the packed form is parsed to, when it is accepted. -/
theorem reparse_accepted (hrc : 0 ≤ (reqParse b (reqReset f) (reqPack r)).1)
    (hb : (reqParse b (reqReset f) (reqPack r)).2.phase = .body) :
    (∃ m, methodAt ⟨LF, startLine (reqPack r)⟩ = some m ∧
        (reqParse b (reqReset f) (reqPack r)).2 =
          ((fieldLines (reqPack r)).foldl Req.addField
            ((reqReset f).begun m (startLine (reqPack r)))).complete) ∧
      ∀ l ∈ fieldLines (reqPack r), IsLine LF l ∧ Keyed l ∧
        ∀ r, (parseField r (keyOf l) (valOf l)).isSome := by
  have hchunks := parseChunks_single hrc
  have hends : ∀ chunk ∈ [(b, reqPack r)], chunk.2.getLast? = some LF := by
    simpa using reqPack_last r
  have htext : [(b, reqPack r)].flatMap Prod.snd = reqPack r := List.append_nil _
  have haccepted := parseChunks_accepted (r := reqReset f) hends rfl
  rw [hchunks, htext] at haccepted
  dsimp only at haccepted
  obtain ⟨hm, hall⟩ := haccepted rfl hb
  exact ⟨hm,
    fun l hl => ⟨Cut.isLine_of_mem (List.mem_of_mem_tail ((List.takeWhile_prefix _).subset hl)),
      hall l hl⟩⟩

/-- The version is the third word. -/
theorem begun_version (r : Req) (m : Method) (l : List Byte) :
    (r.begun m l).version = strncpy0 ((words isspace l).getD 2 []) REQ_VERSZ := by
  rw [Req.begun]

/-- What the header lines leave alone. -/
theorem reparse_start (hr : r.Parsed) (h0 : 0 ≤ r.clen)
    (hrc : 0 ≤ (reqParse b (reqReset f) (reqPack r)).1)
    (hb : (reqParse b (reqReset f) (reqPack r)).2.phase = .body) :
    ∃ m, (reqParse b (reqReset f) (reqPack r)).2.uri =
      ((reqReset f).begun m (startLine (reqPack r))).uri ∧
      (reqParse b (reqReset f) (reqPack r)).2.params =
        ((reqReset f).begun m (startLine (reqPack r))).params ∧
      (reqParse b (reqReset f) (reqPack r)).2.version =
        strncpy0 ((words isspace (startLine (reqPack r))).getD 2 []) REQ_VERSZ := by
  obtain ⟨⟨m, -, hreq⟩, hall⟩ := reparse_accepted hrc hb
  obtain ⟨-, hfields⟩ := clean_lines (reqPack_clean hr h0)
  obtain ⟨-, -, -, huri, hparams, -, hversion⟩ :=
    foldl_addField (r := (reqReset f).begun m (startLine (reqPack r)))
    fun l hl => ⟨(hall l hl).2.2, hfields l hl⟩
  rw [hreq, Req.complete]
  exact ⟨m, huri, hparams, hversion.trans (begun_version _ _ _)⟩

/-- Where the branch for an absolute target finds something, the target begins with a slash. -/
theorem begun_reads {r : Req} {m : Method} {l : List Byte}
    (h : r.Reads (strncpy0 ((words isspace l).getD 1 []) REQ_URISZ)) :
    (cstr (r.begun m l).uri).head? = some 47 := by
  have hclean : 0 ∉ strncpy0 ((words isspace l).getD 1 []) REQ_URISZ := cstr_clean _
  unfold Req.begun
  generalize strncpy0 ((words isspace l).getD 1 []) REQ_URISZ = target at h hclean ⊢
  obtain ⟨t, ht⟩ := Req.absolute_ne (r := { r with method := m }) hclean h
  have hsplit := Req.split_uri (r.named m target).absolute
  have ht : cstr (r.named m target).absolute.uri = 47 :: t := ht
  rw [ht, List.takeWhile_cons_of_pos (by decide)] at hsplit
  dsimp only
  rw [hsplit, List.head?_cons]

/-- A request that comes back has a target that the parser reads whole. -/
theorem returns_target (hr : r.Parsed) (h0 : 0 ≤ r.clen) (h : Returns b (reqReset f) r) :
    (∀ c ∈ cstr r.uri, isspace c = false) ∧ (cstr r.uri).length ≤ REQ_URISZ ∧
      (cstr r.uri ≠ [] ∨ r.version = []) ∧
      ¬ (reqReset f).Reads (cstr r.uri) := by
  have hnil : ¬ (reqReset f).Reads [] := Req.not_reads (by simp [schemeEnd, str, strcaseeq]) _
  obtain ⟨m, huri, -, hversion⟩ := reparse_start hr h0 (h.consumed ▸ Int.natCast_nonneg _) h.phase
  have hback := h.uri
  have hversion := h.version.symm.trans hversion
  rw [huri] at hback
  obtain ⟨hstart, -⟩ := clean_lines (reqPack_clean hr h0)
  by_cases hne : cstr r.uri = []
  · -- The version is the second word then.
    rw [hne] at hback ⊢
    have hword : ∀ c ∈ cstr r.uri, isspace c = false := by simp [hne]
    obtain ⟨hline, -, hwords⟩ := packStart_words hr hword
    rw [startLine_pack hline, hwords, hne, if_pos rfl, List.nil_append] at hversion
    refine ⟨by simp, Nat.zero_le _, .inr ?_, hnil⟩
    by_contra hv
    rw [if_neg hv] at hversion
    exact hv hversion
  · obtain ⟨htarget, hwne⟩ := reread_target hr hne
    have hclean : 0 ∉ (cstr r.uri).takeWhile fun c => !isspace c := fun hmem =>
      cstr_clean _ ((List.takeWhile_prefix _).subset hmem)
    have hwlen := (List.takeWhile_prefix (p := fun c => !isspace c) (l := cstr r.uri)).length_le
    by_cases hreads :
      (reqReset f).Reads (((cstr r.uri).takeWhile fun c => !isspace c).take REQ_URISZ)
    · -- The word is a scheme, and the target begins with a slash.
      have hslash :=
        begun_reads (m := m) (l := startLine (reqPack r))
          (by rw [htarget, strncpy0_eq_take hclean]; exact hreads)
      rw [hback] at hslash
      obtain ⟨k, hk, -⟩ := hreads
      obtain ⟨c, t, hct, h47, -⟩ := schemeEnd_head hk
      obtain ⟨u, hu⟩ := List.head?_eq_some_iff.1 hslash
      rw [hu, List.takeWhile_cons_of_pos (by decide), REQ_URISZ, List.take_succ_cons] at hct
      exact absurd (List.cons.inj hct).1.symm h47
    · have hbegun := (begun_target hstart f m (by rw [htarget]; exact hreads)).1
      rw [htarget] at hbegun
      -- The target is no longer than the word, and the word no longer than the target.
      have hlen := (List.takeWhile_prefix (p := (· != 63))
        (l := ((cstr r.uri).takeWhile fun c => !isspace c).take REQ_URISZ)).length_le
      rw [← hbegun, hback, List.length_take] at hlen
      have hall :=
        (List.takeWhile_prefix (p := fun c => !isspace c) (l := cstr r.uri)).eq_of_length (by omega)
      rw [hall, List.take_of_length_le (by omega)] at hreads
      refine ⟨fun c hc => ?_, by omega, .inl hne, hreads⟩
      rw [← hall] at hc
      simpa using List.mem_takeWhile_imp hc

/-- The words of the packed request line. -/
theorem packStart_text (hr : r.Parsed) (hword : ∀ c ∈ cstr r.uri, isspace c = false)
    (htarget : cstr r.uri ≠ [] ∨ r.version = []) :
    IsLine LF (packStart r) ∧ Ended (packStart r) ∧
      (words isspace (packStart r)).headD [] = reqMethod r ∧
      (words isspace (packStart r)).getD 1 [] = cstr r.uri ∧
        (words isspace (packStart r)).getD 2 [] = r.version ∧
      (words isspace (packStart r)).length ≤ 3 := by
  obtain ⟨hline, hended, hwords⟩ := packStart_words hr hword
  refine ⟨hline, hended, ?_⟩
  rw [hwords]
  by_cases hu : cstr r.uri = []
  · have hv := htarget.resolve_left (not_not.2 hu)
    simp [hu, hv]
  · by_cases hv : r.version = [] <;> simp [hu, hv]

/-- The lines of the packed form. -/
theorem reqPack_lines (hr : r.Parsed) (h0 : 0 ≤ r.clen) (hl : Legible (reqReset f) r) :
    (∀ l ∈ packFields r, IsLine LF l ∧ blank l = false) ∧
      lines LF (reqPack r) = packStart r :: (packFields r ++ [str "\r\n"]) := by
  obtain ⟨hstart, -⟩ := packStart_text hr hl.word hl.target
  obtain ⟨hval, -⟩ := length_line r h0 hr.clen
  have hkey : ∀ key ∈ [str "Host", str "Content-Length"], Trimmed key := fun key h =>
    ⟨(packed_keys key h).1.1, (packed_keys key h).1.2.1, (packed_keys key h).1.2.2⟩
  have hfields : ∀ l ∈ packFields r, IsLine LF l ∧ blank l = false := by
    intro l hmem
    rw [packFields, List.mem_cons, List.mem_cons, List.mem_map] at hmem
    rcases hmem with rfl | rfl | ⟨x, hx, rfl⟩
    · exact fieldLine_line (hkey _ (by simp)) hl.host.line
    · exact fieldLine_line (hkey _ (by simp)) hval.line
    · exact fieldLine_line (hr.hdrs x hx).key (hr.hdrs x hx).val.line
  refine ⟨hfields, ?_⟩
  have hcrlf : IsLine LF (str "\r\n") := ⟨[CR], str_crlf, by decide⟩
  have hall : ∀ l ∈ packStart r :: (packFields r ++ [str "\r\n"]), IsLine LF l := by
    intro l hmem
    rw [List.mem_cons, List.mem_append, List.mem_singleton] at hmem
    rcases hmem with rfl | hmem | rfl
    · exact hstart
    · exact (hfields l hmem).1
    · exact hcrlf
  have hcut := Cut.lines_flatten hall []
  rw [Cut.lines_nil, List.append_nil, List.append_nil] at hcut
  rw [← hcut, reqPack_eq]
  simp

/-- The header lines give the request its host, its length, and its headers. -/
theorem packFields_fold (hr : r.Parsed) (h0 : 0 ≤ r.clen) (hl : Legible (reqReset f) r) (q : Req) :
    (packFields r).foldl Req.addField q = { setHost q r.host with
      clen := r.clen, hdrs := (r.hdrs.map fun h => ⟨h.key, reread h.val⟩).reverse ++ q.hdrs } := by
  have hsize := hr.host_size hl.before
  have hlen : r.host.length < HDR_VALSZ := hsize.trans_lt (by simp [REQ_HOSTSZ, HDR_VALSZ])
  have hfold : ∀ (hdrs : List Hdr) (q : Req), (∀ h ∈ hdrs, h.Parsed) →
    (hdrs.map packHdr).foldl Req.addField q =
      { q with hdrs := (hdrs.map fun h => ⟨h.key, reread h.val⟩).reverse ++ q.hdrs } := by
    intro hdrs
    induction hdrs with
    | nil => exact fun q _ => rfl
    | cons h hdrs ih =>
      intro q hp
      rw [List.map_cons, List.foldl_cons, hdr_line q (hp h (by simp)),
        ih _ fun x hx => hp x (List.mem_cons_of_mem _ hx),
        List.map_cons, List.reverse_cons, List.append_assoc]
      rfl
  rw [packFields, List.foldl_cons, List.foldl_cons, host_line q hl.host hlen,
    (length_line _ h0 hr.clen).2,
    hfold _ _ hr.hdrs]
  rfl

/-- The method of the packed request line. -/
theorem packStart_method (hr : r.Parsed)
    (hhead : (words isspace (packStart r)).headD [] = reqMethod r) :
    lineMethod (packStart r) = some r.method := by
  have hline : ∃ t, packStart r = reqMethod r ++ 32 :: t := ⟨_, by simp [packStart, str_sp]; rfl⟩
  obtain ⟨t, ht⟩ := hline
  obtain ⟨hne, hmethod⟩ := reqMethod_word r
  have hskip : (packStart r).dropWhile issp = packStart r := by
    obtain ⟨c, w, hcons⟩ := List.exists_cons_of_ne_nil hne
    have hc : isspace c = false := (hmethod c (by simp [hcons])).1
    have hc : issp c = false := (Bool.or_eq_false_iff.1 hc).1
    rw [ht, hcons, List.cons_append, List.dropWhile_cons_of_neg (by simp [hc])]
  have hspace : (packStart r).getD (reqMethod r).length 0 = 32 := by
    rw [ht, List.getD_append_right _ _ _ _ le_rfl, Nat.sub_self]
    rfl
  have hword : methodWord (reqMethod r) = some r.method := by
    have hother := hr.method
    unfold reqMethod
    cases hm : r.method with
    | get => simp [methodWord, str, strcaseeq, tolower]
    | head => simp [methodWord, str, strcaseeq, tolower]
    | post => simp [methodWord, str, strcaseeq, tolower]
    | other => exact absurd hm hother
  rw [lineMethod, hskip, hhead, hspace, if_pos (by decide), hword]

/-- What the parser makes of the packed request line. -/
theorem packStart_begun (hr : r.Parsed) (hl : Legible (reqReset f) r) (hnul : 0 ∉ packStart r) :
    ∃ q, (reqReset f).begun r.method (packStart r) = q ∧ q.method = r.method ∧
      cstr q.uri = cstr r.uri ∧
      (q.params.map fun k => cstr (q.uri.drop k)) = none ∧ q.version = r.version ∧ q.type = r.type ∧
        q.alive = true ∧
      q.host = [] ∧ q.hdrs = [] ∧ q.overrun = f.overrun := by
  obtain ⟨-, -, -, htarget, hversion, -⟩ := packStart_text hr hl.word hl.target
  have hcut : ((words isspace (packStart r)).getD 1 []).take REQ_URISZ = cstr r.uri := by
    rw [htarget, List.take_of_length_le hl.size]
  obtain ⟨h1, h2, h3, h4, h5⟩ := begun_target hnul f r.method (by rw [hcut]; exact hl.scheme)
  obtain ⟨h6, h7, h8⟩ := begun_rest hnul f r.method
  rw [hcut] at h1 h2 h3
  have hmethod : ((reqReset f).begun r.method (packStart r)).method = r.method := by
    rw [Req.begun, Req.line_eq]
  refine ⟨_, rfl, hmethod, ?_, ?_, ?_, ?_, h7, h4, h8, h5⟩
  · rw [h1, List.takeWhile_eq_self_iff]
    intro c hc
    have hne : c ≠ 63 := fun he => hr.mark (he ▸ hc)
    simpa using hne
  · rw [h2, paramsOf, if_neg hr.mark]
  · rw [h6, hversion, List.take_of_length_le hr.version_size]
  · have hsame := h3.trans hr.type.symm
    cases ht : r.type <;> cases ht' : ((reqReset f).begun r.method (packStart r)).type <;> simp_all

/-- The request that the packed form is parsed to. -/
theorem reparsed (hr : r.Parsed) (h0 : 0 ≤ r.clen) (hl : Legible (reqReset f) r)
    (hrc : 0 ≤ (reqParse b (reqReset f) (reqPack r)).1)
    (hb : (reqParse b (reqReset f) (reqPack r)).2.phase = .body) :
    (∀ l ∈ packFields r, Keyed l) ∧
      (reqParse b (reqReset f) (reqPack r)).2 =
        { setHost ((reqReset f).begun r.method (packStart r)) r.host with
        clen := r.clen, rsize := r.clen, phase := .body
        hdrs := (r.hdrs.map fun h => ⟨h.key, reread h.val⟩).reverse } := by
  obtain ⟨⟨m, hm, hreq⟩, hall⟩ := reparse_accepted hrc hb
  obtain ⟨hline, -, hhead, -⟩ := packStart_text hr hl.word hl.target
  obtain ⟨hfields, hlines⟩ := reqPack_lines hr h0 hl
  obtain ⟨hnul, -⟩ := clean_lines (reqPack_clean hr h0)
  have hstart : startLine (reqPack r) = packStart r := by
    rw [startLine, hlines]
    rfl
  have hcrlf : blank (str "\r\n") = true := by
    rw [str_crlf]
    decide
  have hrest : fieldLines (reqPack r) = packFields r := by
    rw [fieldLines, hlines, List.tail_cons,
      List.takeWhile_append_of_pos fun l hl => by simp [(hfields l hl).2],
      List.takeWhile_cons_of_neg (by simp [hcrlf]), List.append_nil]
  rw [hstart] at hm hreq hnul
  rw [hrest] at hreq hall
  have hmethod : m = r.method := by
    rw [methodAt_text hline hnul, packStart_method hr hhead] at hm
    exact (Option.some.inj hm).symm
  obtain ⟨q, hq, -, -, -, -, -, -, -, hhdrs, -⟩ := packStart_begun hr hl hnul
  rw [hmethod, packFields_fold hr h0 hl, hq, hhdrs, List.append_nil] at hreq
  refine ⟨fun l hl => (hall l hl).2.1, ?_⟩
  rw [hreq, hq, Req.complete]
  dsimp only
  rw [max_eq_left h0]

/-! ## The packed head is accepted -/

/-- The grammar accepts a packed header line, and goes on behind it. -/
theorem fieldsGrammar_line (post : Prop) [Decidable post] (clen : ℤ) (used : ℕ)
    (ls : List (List Byte)) (hkey : Trimmed key) (hcolon : COLON ∉ key)
    (hsize : key.length ≤ HDR_KEYSZ) (hne : key ≠ []) (h0 : 0 ∉ val) (hlf : LF ∉ val) :
    fieldsGrammar post clen used (fieldLine key val :: ls) =
      if ¬ strcaseeq key (str "Content-Length") then fieldsGrammar post clen
        (used + (fieldLine key val).length) ls
      else if ¬ isnum (reread val) then (-400, .abort)
      else fieldsGrammar post (atoi (reread val)) (used + (fieldLine key val).length) ls := by
  obtain ⟨-, hblank⟩ := fieldLine_line hkey hlf
  obtain ⟨hk, hv⟩ := fieldLine_read hkey hcolon hsize h0
  have hclean : 0 ∉ fieldLine key val := by
    have hlit : 0 ∉ str ": " ∧ 0 ∉ str "\r\n" := by
      rw [str_colon, str_crlf]
      decide
    simp [fieldLine, hkey.clean, h0, hlit]
  obtain ⟨hkt, hvt⟩ := keyOf_text hclean
  have hkeyed : Keyed (fieldLine key val) := (fieldLine_keyed hkey hcolon val).2 hne
  rw [fieldsGrammar, hblank, if_neg Bool.false_ne_true, if_neg (not_not.2 hkeyed), ← hkt, ← hvt, hk,
    hv]

/-- The grammar accepts the other header lines that are packed, and the end of the head. -/
theorem fieldsGrammar_hdrs (post : Prop) [Decidable post] {clen : ℤ} (h0 : 0 ≤ clen)
    {hdrs : List Hdr} (hp : ∀ h ∈ hdrs, h.Parsed ∧ h.key ≠ []) (used : ℕ) :
    fieldsGrammar post clen used (hdrs.map packHdr ++ [str "\r\n"]) =
      (((used + ((hdrs.map packHdr).flatten ++ str "\r\n").length : ℕ) : ℤ), .body) := by
  induction hdrs generalizing used with
  | nil =>
    have hend : blank (str "\r\n") = true ∧ Ended (str "\r\n") := by
      rw [str_crlf]
      decide
    obtain ⟨hblank, hended⟩ := hend
    rw [List.map_nil, List.nil_append, fieldsGrammar, hblank, if_pos rfl, if_neg (not_not.2 hended),
      if_neg fun h => by omega]
    rfl
  | cons h hdrs ih =>
    obtain ⟨hh, hne⟩ := hp h (by simp)
    have hord := hh.ordinary
    unfold Hdr.ordinary at hord
    simp only [Bool.and_eq_true, Bool.not_eq_true'] at hord
    have hline : packHdr h = fieldLine h.key h.val := rfl
    rw [List.map_cons, List.cons_append, hline,
      fieldsGrammar_line post clen used _ hh.key hh.colon hh.key_size hne hh.val.clean hh.val.line,
        hord.1.2,
      if_pos Bool.false_ne_true, ih fun x hx => hp x (List.mem_cons_of_mem _ hx), List.flatten_cons,
        List.append_assoc,
      @List.length_append _ (fieldLine h.key h.val), Nat.add_assoc]

/-- The header lines, and the end of the head. -/
theorem fieldsGrammar_pack (post : Prop) [Decidable post] (hr : r.Parsed) (h0 : 0 ≤ r.clen)
    (hl : Legible (reqReset f) r) (hkeys : ∀ h ∈ r.hdrs, h.key ≠ []) (clen : ℤ) (used : ℕ) :
    fieldsGrammar post clen used (packFields r ++ [str "\r\n"]) =
      (((used + ((packFields r).flatten ++ str "\r\n").length : ℕ) : ℤ), .body) := by
  obtain ⟨hval, -⟩ := length_line r h0 hr.clen
  obtain ⟨hnum, hatoi⟩ := atoi_dec h0 hr.clen
  have hdec : reread (dec r.clen) = dec r.clen :=
    reread_eq hval ((dec_length (by have := hr.clen; omega)).trans_lt (by simp [HDR_VALSZ]))
  obtain ⟨⟨a1, a2, a3⟩, acolon, asize, ane, -⟩ := packed_keys (str "Host") (by simp)
  obtain ⟨⟨b1, b2, b3⟩, bcolon, bsize, bne, hsame⟩ := packed_keys (str "Content-Length") (by simp)
  have hother : strcaseeq (str "Host") (str "Content-Length") = false := by
    simp [str, strcaseeq, tolower]
  have hparsed : ∀ h ∈ r.hdrs, h.Parsed ∧ h.key ≠ [] := fun h hh => ⟨hr.hdrs h hh, hkeys h hh⟩
  have hrest := fieldsGrammar_hdrs post h0 hparsed
  rw [packFields, List.cons_append, List.cons_append,
    fieldsGrammar_line _ _ _ _ ⟨a1, a2, a3⟩ acolon asize ane hl.host.clean hl.host.line, hother,
    if_pos Bool.false_ne_true,
    fieldsGrammar_line _ _ _ _ ⟨b1, b2, b3⟩ bcolon bsize bne hval.clean hval.line, hsame,
    if_neg (not_not.2 rfl), hdec, hnum, if_neg (not_not.2 rfl), hatoi, hrest, List.flatten_cons,
      List.flatten_cons,
    List.append_assoc, List.append_assoc, @List.length_append _ (fieldLine (str "Host") r.host),
    @List.length_append _ (fieldLine (str "Content-Length") (dec r.clen)), Nat.add_assoc,
      Nat.add_assoc]

/-- The packed form of a request is accepted, if its headers have keys. -/
theorem reqPack_accepted (hr : r.Parsed) (h0 : 0 ≤ r.clen) (hl : Legible (reqReset f) r)
    (hkeys : ∀ h ∈ r.hdrs, h.key ≠ []) (b : Byte) :
    (reqParse b (reqReset f) (reqPack r)).1 = (reqPack r).length ∧
      (reqParse b (reqReset f) (reqPack r)).2.phase = .body := by
  obtain ⟨-, hended, hhead, -, -, hwords⟩ := packStart_text hr hl.word hl.target
  obtain ⟨-, hlines⟩ := reqPack_lines hr h0 hl
  have hout := reqParse_outcome b (r := reqReset f) rfl (reqPack_clean hr h0) (reqPack_last r)
  have hne : words isspace (packStart r) ≠ [] := by
    intro hnil
    rw [hnil] at hhead
    exact (reqMethod_word r).1 hhead.symm
  have hnot : ¬ (3 < (words isspace (packStart r)).length ∨ ¬ Ended (packStart r)) :=
    not_or.2 ⟨not_lt.2 hwords, not_not.2 hended⟩
  have hgrammar : headGrammar (reqReset f).clen (reqPack r) =
    (((reqPack r).length : ℤ), .body) := by
    rw [headGrammar, hlines]
    dsimp only
    rw [if_neg hne, packStart_method hr hhead]
    dsimp only
    rw [if_neg hnot, fieldsGrammar_pack _ hr h0 hl hkeys, ← List.length_append, ← reqPack_eq]
  rw [hgrammar] at hout
  exact Prod.mk.inj hout

/-! ## The claim of the packer -/

/-- A request that comes back has a host that stands in a line. -/
theorem returns_host (hr : r.Parsed) (h0 : 0 ≤ r.clen) (h : Returns b (reqReset f) r) :
    Trimmed r.host := by
  obtain ⟨hword, hsize, hfirst, hscheme⟩ := returns_target hr h0 h
  obtain ⟨⟨m, -, hreq⟩, hall⟩ := reparse_accepted (h.consumed ▸ Int.natCast_nonneg _) h.phase
  obtain ⟨hnul, -⟩ := clean_lines (reqPack_clean hr h0)
  obtain ⟨hline, -, -, htarget, -⟩ := packStart_text hr hword hfirst
  rw [startLine_pack hline] at hreq hnul
  -- The request line leaves the host empty, because the branch for an absolute target finds
  -- nothing.
  have hreads :
    ¬ (reqReset f).Reads (((words isspace (packStart r)).getD 1 []).take REQ_URISZ) := by
    rw [htarget, List.take_of_length_le hsize]
    exact hscheme
  obtain ⟨-, -, -, hempty, -⟩ := begun_target hnul f m hreads
  have hfold : ∀ (fs : List (List Byte)) (q : Req), (∀ l ∈ fs, IsLine LF l ∧ Keyed l) →
    Trimmed q.host →
      Trimmed (fs.foldl Req.addField q).host := by
    intro fs
    induction fs with
    | nil => exact fun q _ hq => hq
    | cons l fs ih =>
      intro q hls hq
      obtain ⟨hl, hk⟩ := hls l (by simp)
      exact ih _ (fun l hl => hls l (List.mem_cons_of_mem _ hl)) (addField_host hl hk hq)
  have hhost := hfold (fieldLines (reqPack r)) _ (fun l hl => ⟨(hall l hl).1, (hall l hl).2.1⟩)
    (hempty ▸ Trimmed.nil)
  rw [← h.host, hreq, Req.complete]
  exact hhost

/-- When a list is rearranged by a map under which nothing grows, nothing shrinks. -/
theorem size_of_perm_map {α : Type*} {xs : List α} {g : α → α} (size : α → ℕ)
    (hle : ∀ x ∈ xs, size (g x) ≤ size x) (h : (xs.map g).Perm xs) :
    ∀ x ∈ xs, size (g x) = size x := by
  have hsum := (h.map size).sum_eq
  rw [List.map_map] at hsum
  by_contra hne
  push Not at hne
  obtain ⟨x, hx, hne⟩ := hne
  have hlt := List.sum_lt_sum (size ∘ g) size hle ⟨x, hx, lt_of_le_of_ne (hle x hx) hne⟩
  exact absurd hsum hlt.ne

/-- The values of a request that comes back fit behind a space. -/
theorem reread_perm {hdrs : List Hdr} (hp : ∀ h ∈ hdrs, h.Parsed)
    (h : (hdrs.map fun h => ⟨h.key, reread h.val⟩).Perm hdrs) :
    ∀ h ∈ hdrs, h.val.length < HDR_VALSZ := by
  have hle : ∀ h ∈ hdrs, (reread h.val).length ≤ h.val.length :=
    fun h hh => (reread_length (hp h hh).val).1
  have hsize := size_of_perm_map (fun h : Hdr => h.val.length) hle h
  intro x hx
  have hlt := (reread_length (hp x hx).val).2
  have heq : (reread x.val).length = x.val.length := hsize x hx
  rwa [heq] at hlt

/-- A request comes back if and only if it is packable. -/
theorem returns_iff (hr : r.Parsed) (h0 : 0 ≤ r.clen) (hf : f.overrun = false) (b : Byte) :
    Returns b (reqReset f) r ↔ Packable (reqReset f) r := by
  constructor
  · intro h
    obtain ⟨hword, hsize, htarget, hscheme⟩ := returns_target hr h0 h
    -- The packed form is accepted, so its lines are those of a head that can be read.
    have hl : Legible (reqReset f) r :=
      ⟨h.before, hword, hsize, htarget, hscheme, returns_host hr h0 h⟩
    obtain ⟨hkeyed, hreq⟩ := reparsed hr h0 hl (h.consumed ▸ Int.natCast_nonneg _) h.phase
    obtain ⟨hnul, -⟩ := clean_lines (reqPack_clean hr h0)
    rw [startLine_pack (packStart_text hr hword htarget).1] at hnul
    obtain ⟨q, hq, -, -, hqparams, -, -, hqalive, -⟩ := packStart_begun hr hl hnul
    have hparams := h.params
    have halive := h.alive
    have hhdrs := h.hdrs
    rw [hreq, hq] at hparams halive hhdrs
    refine { hl with params := ?_, alive := ?_, key := ?_, val := ?_ }
    · have hnone := hparams.symm.trans hqparams
      exact Option.map_eq_none_iff.1 hnone
    · exact halive.symm.trans hqalive
    · intro x hx
      have hline : packHdr x ∈ packFields r := by
        rw [packFields]
        exact List.mem_cons_of_mem _ (List.mem_cons_of_mem _ (List.mem_map_of_mem hx))
      exact (fieldLine_keyed (hr.hdrs x hx).key (hr.hdrs x hx).colon x.val).1 (hkeyed _ hline)
    · exact reread_perm hr.hdrs ((List.reverse_perm _).symm.trans hhdrs)
  · intro h
    have hl := h.toLegible
    obtain ⟨hrc, hb⟩ := reqPack_accepted hr h0 hl h.key b
    obtain ⟨-, hreq⟩ := reparsed hr h0 hl (hrc ▸ Int.natCast_nonneg _) hb
    obtain ⟨hnul, -⟩ := clean_lines (reqPack_clean hr h0)
    rw [startLine_pack (packStart_text hr hl.word hl.target).1] at hnul
    obtain ⟨q, hq, hmethod, huri, hparams, hversion, htype, halive, -, -, hover⟩ :=
      packStart_begun hr hl hnul
    -- Every value comes back as it was, without a blank lost at its ends.
    have hback : r.hdrs.map (fun h => (⟨h.key, reread h.val⟩ : Hdr)) = r.hdrs := by
      refine (List.map_congr_left fun x hx => ?_).trans (List.map_id _)
      rw [reread_eq (hr.hdrs x hx).val (h.val x hx)]
      rfl
    rw [hq, hback] at hreq
    have hsize : decide (REQ_HOSTSZ < r.host.length) = false :=
      decide_eq_false (not_lt.2 (hr.host_size h.before))
    constructor
    case before => exact h.before
    case after =>
      rw [hreq]
      show (q.overrun || decide (REQ_HOSTSZ < r.host.length)) = false
      rw [hover, hf, hsize, Bool.or_false]
    case consumed => exact hrc
    case phase => exact hb
    case method => rw [hreq]; exact hmethod
    case uri => rw [hreq]; exact huri
    case params => rw [hreq, h.params, Option.map_none]; exact hparams
    case version => rw [hreq]; exact hversion
    case host => rw [hreq]; rfl
    case clen => rw [hreq]
    case alive => rw [hreq, h.alive]; exact halive
    case type => rw [hreq]; exact htype
    case hdrs => rw [hreq]; exact List.reverse_perm _

/-- For every head that is accepted on a fresh request, cut into chunks anyhow: parsing the packed
form on another fresh request consumes it and gives the same request if and only if nothing is left
out of the packed form or read otherwise from it. -/
theorem packed_iff (mem mem' : List Byte) (b : Byte) (chunks : List (Byte × List Byte))
    (hchunks : ∀ chunk ∈ chunks, chunk.2.getLast? = some LF)
    (hs : (parseChunks (reqNew mem) chunks).1 = none)
    (hb : (parseChunks (reqNew mem) chunks).2.phase = .body) :
    Returns b (reqNew mem') (parseChunks (reqNew mem) chunks).2 ↔
      Packable (reqNew mem') (parseChunks (reqNew mem) chunks).2 := by
  obtain ⟨hr, h0⟩ := accepted_parsed hchunks _ hs hb
  exact returns_iff hr h0 rfl b

/-- A head in two chunks, with a body to come. -/
def postHead : List (Byte × List Byte) :=
  [(0, str "POST /cgi/a HTTP/1.1\r\nX: y \r\n"),
    (LF, str "Content-Length: 3\r\nHost: h\r\nConnection: keep-alive\r\n\r\n")]

/-- A POST comes back as it was packed. -/
theorem packed_iff_post :
    Returns 0 (reqNew (str "http:///")) (parseChunks (reqNew []) postHead).2 := by
  have haccepted : (∀ chunk ∈ postHead, chunk.2.getLast? = some LF) ∧
    (parseChunks (reqNew []) postHead).1 = none ∧
      (parseChunks (reqNew []) postHead).2.phase = .body := by decide +kernel
  refine (packed_iff [] (str "http:///") 0 postHead haccepted.1 haccepted.2.1 haccepted.2.2).2 ?_
  generalize hr : (parseChunks (reqNew []) postHead).2 = r
  have hfields : (parseChunks (reqNew []) postHead).2.overrun = false ∧
      cstr (parseChunks (reqNew []) postHead).2.uri = str "/cgi/a" ∧
      (parseChunks (reqNew []) postHead).2.params = none ∧
        (parseChunks (reqNew []) postHead).2.host = str "h" ∧
      (parseChunks (reqNew []) postHead).2.alive = true ∧
      (parseChunks (reqNew []) postHead).2.hdrs = [⟨str "X", str "y"⟩] := by decide +kernel
  rw [hr] at hfields
  obtain ⟨hover, huri, hparams, hhost, halive, hhdrs⟩ := hfields
  have htarget : (∀ c ∈ str "/cgi/a", isspace c = false) ∧ (str "/cgi/a").length ≤ REQ_URISZ ∧
    str "/cgi/a" ≠ [] ∧
      schemeEnd (str "/cgi/a") = none := by
        simp [schemeEnd, str, strcaseeq, tolower, isspace, issp, LF, REQ_URISZ]
  have hh : 0 ∉ str "h" ∧ LF ∉ str "h" ∧ strstrip (str "h") = str "h" := by
    simp only [str]
    decide
  have hx : str "X" ≠ [] ∧ (str "y").length < HDR_VALSZ := by simp [str, HDR_VALSZ]
  rw [← huri] at htarget
  rw [← hhost] at hh
  constructor
  case toLegible =>
    exact ⟨hover, htarget.1, htarget.2.1, .inl htarget.2.2.1, Req.not_reads htarget.2.2.2 _,
      ⟨hh.1, hh.2.1, hh.2.2⟩⟩
  case params => exact hparams
  case alive => exact halive
  case key => simpa [hhdrs] using hx.1
  case val => simpa [hhdrs] using hx.2

/-- The parameters of a request are lost when it is packed. -/
theorem packed_lossy : ¬ ∀ (mem mem' : List Byte) (b : Byte) (chunks : List (Byte × List Byte)),
    (∀ chunk ∈ chunks, chunk.2.getLast? = some LF) → (parseChunks (reqNew mem) chunks).1 = none →
    (parseChunks (reqNew mem) chunks).2.phase = .body →
      (reqPack (parseChunks (reqNew mem) chunks).2).length ≤ BUFSZ →
    Returns b (reqNew mem') (parseChunks (reqNew mem) chunks).2 := by
  intro h
  have haccepted : (∀ chunk ∈ cgiHead, chunk.2.getLast? = some LF) ∧
    (parseChunks (reqNew []) cgiHead).1 = none ∧
      (parseChunks (reqNew []) cgiHead).2.phase = .body ∧
      (reqPack (parseChunks (reqNew []) cgiHead).2).length ≤ BUFSZ := by decide +kernel
  obtain ⟨hchunks, hs, hb, hfits⟩ := haccepted
  have hparams := (h [] [] 0 cgiHead hchunks hs hb hfits).params
  exact absurd hparams (by decide +kernel)

end Liso
