import Liso.Parse.Stores
import Liso.Parse.Chunks

/-!
# What the fields of a request hold

`Holds` says what a request holds of a head with a given target, version, and fields. Behind a head
that is accepted it holds of what the parser keeps of them (`holds_cut`): of the target and the
version as many bytes as their arrays have room for, and as many of each key and value, trimmed.
When everything fits this is the head itself (`fields_faithful`); when it does not, the rest is
dropped without a word (`parts_cut`).
-/

namespace Liso

open Cut (IsLine lines)
open Words (words)

variable {r r' : Req} {b : Byte} {l : List Byte} {fs : List (List Byte)}

/-! ## What a request holds -/

/-- A `Host` field. -/
def Hdr.isHost (h : Hdr) : Bool := strcaseeq h.key (str "Host")

/-- A `Connection` field with the value `close`. -/
def Hdr.closes (h : Hdr) : Bool :=
  strcaseeq h.key (str "Connection") && strcaseeq h.val (str "close")

/-- A field that goes into the list of headers. -/
def Hdr.ordinary (h : Hdr) : Bool :=
  !strcaseeq h.key (str "Host") && !strcaseeq h.key (str "Content-Length") && !strcaseeq h.key
    (str "Connection")

/-- The value of the last `Host` field. -/
def lastHost (fields : List Hdr) : List Byte :=
  ((fields.filter Hdr.isHost).getLast?.map Hdr.val).getD []

/-- The request holds the parts of a head. -/
structure Holds (target version : List Byte) (fields : List Hdr) (r : Req) : Prop where
  /-- `uri`, up to the question mark. -/
  uri : cstr r.uri = target.takeWhile (· != 63)
  /-- `params`, which is null when there is none. -/
  params : (r.params.map fun k => cstr (r.uri.drop k)) = paramsOf target
  /-- `type`. -/
  type : r.type = .dynamic ↔ str "/cgi/" <+: target
  /-- `version`. -/
  version : r.version = version
  /-- `host`. -/
  host : r.host = lastHost fields
  /-- `alive`. -/
  alive : r.alive = false ↔ ∃ h ∈ fields, h.closes
  /-- `hdrs`, newest first. -/
  hdrs : r.hdrs = (fields.filter Hdr.ordinary).reverse

/-- The target of a head. -/
def targetOf (text : List Byte) : List Byte := (words isspace (startLine text)).getD 1 []

/-- The version of a head. -/
def versionOf (text : List Byte) : List Byte := (words isspace (startLine text)).getD 2 []

/-- The key and the value of a header line, each cut and trimmed. -/
def cutField (l : List Byte) : Hdr := ⟨keyText l, valText l⟩

/-- The key and the value of a header line, trimmed. -/
def wholeField (l : List Byte) : Hdr := ⟨strstrip (keyRaw l), strstrip (valRaw l)⟩

/-! ## One field more -/

/-- What a field adds to the host, to `alive` and to the headers. -/
theorem addField_fields (hf : (parseField r (keyOf l) (valOf l)).isSome) (hnul : 0 ∉ l) :
    (r.addField l).host = (if (cutField l).isHost then (cutField l).val else r.host) ∧
      (r.addField l).alive = (r.alive && !(cutField l).closes) ∧
      (r.addField l).hdrs = (if (cutField l).ordinary then [cutField l] else []) ++ r.hdrs := by
  obtain ⟨hkey, hval⟩ := keyOf_text hnul
  have hhdr : hdrNew (keyText l) (valText l) = cutField l := by
    have hk : (keyText l).length ≤ HDR_KEYSZ :=
      (strstrip_length_le _).trans (List.length_take_le _ _)
    have hv : (valText l).length ≤ HDR_VALSZ :=
      (strstrip_length_le _).trans (List.length_take_le _ _)
    rw [hdrNew, ← hkey, ← hval, strncpy0_eq_take (keyOf_clean l),
      strncpy0_eq_take (valOf_clean l), hkey, hval,
      List.take_of_length_le hk, List.take_of_length_le hv]
    rfl
  -- A key is one of the three at most.
  have hone : ∀ a c : List Byte, strcaseeq a c = false → strcaseeq (keyText l) a = true →
      strcaseeq (keyText l) c = false := by
    intro a c hac ha
    have hmap : (keyText l).map tolower = a.map tolower := eq_of_beq ha
    rw [strcaseeq, hmap]
    exact hac
  have hhl := hone (str "Host") (str "Content-Length") (by simp [str, strcaseeq, tolower])
  have hhc := hone (str "Host") (str "Connection") (by simp [str, strcaseeq, tolower])
  have hlc := hone (str "Content-Length") (str "Connection") (by simp [str, strcaseeq, tolower])
  have hadd : r.addField l = (parseField r (keyText l) (valText l)).getD r := by
    rw [Req.addField, hkey, hval]
  rw [hkey, hval, parseField_isSome] at hf
  have hhost : (cutField l).isHost = strcaseeq (keyText l) (str "Host") := rfl
  have hcloses :
    (cutField l).closes =
      (strcaseeq (keyText l) (str "Connection") && strcaseeq (valText l) (str "close")) :=
    rfl
  have hordinary : (cutField l).ordinary = (!strcaseeq (keyText l) (str "Host") &&
      !strcaseeq (keyText l) (str "Content-Length") && !strcaseeq (keyText l) (str "Connection")) :=
        rfl
  rw [hadd, hhost, hcloses, hordinary, parseField, hhdr]
  cases h1 : strcaseeq (keyText l) (str "Host") with
  | true => simp [hhl h1, hhc h1, setHost, cutField]
  | false =>
    cases h2 : strcaseeq (keyText l) (str "Content-Length") with
    | true =>
      rw [h1, h2] at hf
      have hnum : isnum (valText l) = true := by simpa using hf
      simp [hlc h2, hnum]
    | false =>
      cases h3 : strcaseeq (keyText l) (str "Connection") with
      | true => by_cases h4 : strcaseeq (valText l) (str "close") = true <;> simp [h4]
      | false => simp [hdrInsert]

/-- A field leaves alone what the request line has set. -/
theorem addField_keeps (r : Req) (l : List Byte) :
    (r.addField l).uri = r.uri ∧ (r.addField l).params = r.params ∧ (r.addField l).type = r.type ∧
      (r.addField l).version = r.version := by
  unfold Req.addField
  rcases hf : parseField r (keyOf l) (valOf l) with _ | r1
  · exact ⟨rfl, rfl, rfl, rfl⟩
  · show r1.uri = r.uri ∧ r1.params = r.params ∧ r1.type = r.type ∧ r1.version = r.version
    unfold parseField at hf
    split_ifs at hf
    all_goals
      rw [← Option.some.inj hf]
      try split_ifs
      all_goals exact ⟨rfl, rfl, rfl, rfl⟩

/-- The fields of a header, one after the other. -/
theorem foldl_addField (hfs : ∀ l ∈ fs, (∀ r, (parseField r (keyOf l) (valOf l)).isSome) ∧ 0 ∉ l) :
    (fs.foldl Req.addField r).host =
      ((((fs.map cutField).filter Hdr.isHost).getLast?.map Hdr.val).getD r.host) ∧
      (fs.foldl Req.addField r).alive = (r.alive && !(fs.map cutField).any Hdr.closes) ∧
      (fs.foldl Req.addField r).hdrs = ((fs.map cutField).filter Hdr.ordinary).reverse ++ r.hdrs ∧
      (fs.foldl Req.addField r).uri = r.uri ∧ (fs.foldl Req.addField r).params = r.params ∧
      (fs.foldl Req.addField r).type = r.type ∧ (fs.foldl Req.addField r).version = r.version := by
  induction fs generalizing r with
  | nil => simp
  | cons l fs ih =>
    obtain ⟨hsome, hnul⟩ := hfs l (by simp)
    obtain ⟨hhost, halive, hhdrs⟩ := addField_fields (hsome r) hnul
    obtain ⟨huri, hparams, htype, hversion⟩ := addField_keeps r l
    obtain ⟨ih1, ih2, ih3, ih4, ih5, ih6, ih7⟩ :=
      ih (r := r.addField l) fun l hl => hfs l (List.mem_cons_of_mem _ hl)
    rw [List.foldl_cons]
    refine ⟨?_, ?_, ?_, ih4.trans huri, ih5.trans hparams, ih6.trans htype, ih7.trans hversion⟩
    · rw [ih1, hhost, List.map_cons]
      cases h : (cutField l).isHost with
      | false => rw [List.filter_cons_of_neg (by simp [h]), if_neg Bool.false_ne_true]
      | true =>
        rw [List.filter_cons_of_pos h, List.getLast?_cons]
        cases ((fs.map cutField).filter Hdr.isHost).getLast? <;> rfl
    · rw [ih2, halive, List.map_cons, List.any_cons, Bool.not_or, Bool.and_assoc]
    · rw [ih3, hhdrs, List.map_cons]
      cases h : (cutField l).ordinary with
      | false => simp [h]
      | true => simp [h]

/-! ## The request line -/

/-- `strstartswith` is the prefix relation. -/
theorem strstartswith_iff (s start : List Byte) : strstartswith s start = true ↔ start <+: s := by
  rw [strstartswith, beq_iff_eq, List.prefix_iff_eq_take]
  exact eq_comm

/-- The target behind a request line, unless a host was found behind it. -/
theorem begun_target (hnul : 0 ∉ l) (r : Req) (m : Method)
    (hreads : ¬ (reqReset r).Reads (((words isspace l).getD 1 []).take REQ_URISZ)) :
    cstr ((reqReset r).begun m l).uri = (((words isspace l).getD 1 []).take REQ_URISZ).takeWhile
      (· != 63) ∧
      (((reqReset r).begun m l).params.map fun k => cstr (((reqReset r).begun m l).uri.drop k)) =
        paramsOf (((words isspace l).getD 1 []).take REQ_URISZ) ∧
      (((reqReset r).begun m l).type = .dynamic ↔
        str "/cgi/" <+: ((words isspace l).getD 1 []).take REQ_URISZ) ∧
      ((reqReset r).begun m l).host = [] ∧ ((reqReset r).begun m l).overrun = r.overrun := by
  have hclean : 0 ∉ (words isspace l).getD 1 [] := fun h => hnul (mem_of_mem_word h)
  have hclean' : 0 ∉ ((words isspace l).getD 1 []).take REQ_URISZ :=
    fun h => hclean (List.mem_of_mem_take h)
  rw [Req.begun, strncpy0_eq_take hclean]
  generalize ((words isspace l).getD 1 []).take REQ_URISZ = t at hreads hclean' ⊢
  have habs : ((reqReset r).named m t).absolute = (reqReset r).named m t :=
    Req.absolute_eq (r := { reqReset r with method := m }) hclean' hreads
  have huri : cstr ((reqReset r).named m t).uri = t := cstr_storeStr hclean' _
  have hsplit := Req.split_uri ((reqReset r).named m t)
  have hparams := Req.split_params ((reqReset r).named m t)
  rw [habs]
  rw [huri] at hsplit hparams
  refine ⟨hsplit, hparams, ?_, ?_, ?_⟩
  · have htype : (reqReset r).type = .static := rfl
    rw [Req.split_eq, huri, ← strstartswith_iff]
    cases strstartswith t (str "/cgi/") <;> simp [Req.named, Req.stored, htype]
  · rw [Req.split_eq]
    rfl
  · rw [Req.split_eq]
    rfl

/-- What a request line does not set. -/
theorem begun_rest (hnul : 0 ∉ l) (r : Req) (m : Method) :
    ((reqReset r).begun m l).version = ((words isspace l).getD 2 []).take REQ_VERSZ ∧
      ((reqReset r).begun m l).alive = true ∧ ((reqReset r).begun m l).hdrs = [] := by
  have hclean : 0 ∉ (words isspace l).getD 2 [] := fun h => hnul (mem_of_mem_word h)
  rw [Req.begun, strncpy0_eq_take hclean, Req.line_eq]
  exact ⟨rfl, rfl, rfl⟩

/-! ## An accepted head -/

/-- The lines of a text without null bytes have none. -/
theorem clean_lines {text : List Byte} (hnul : 0 ∉ text) :
    0 ∉ startLine text ∧ ∀ l ∈ fieldLines text, 0 ∉ l := by
  have hall : ∀ l ∈ lines LF text, 0 ∉ l := by
    intro l hl h0
    refine hnul ?_
    rw [← Cut.flatten_lines LF text]
    exact List.mem_append_left _ (List.mem_flatten.2 ⟨l, hl, h0⟩)
  constructor
  · unfold startLine
    cases hls : lines LF text with
    | nil => simp
    | cons l ls => exact hall l (by simp [hls])
  · intro l hl
    exact hall l (List.mem_of_mem_tail ((List.takeWhile_prefix _).subset hl))

/-- The version and the fields of a head that is accepted. -/
theorem accepted_rest {chunks : List (Byte × List Byte)}
    (hchunks : ∀ chunk ∈ chunks, chunk.2.getLast? = some LF) (hnul : 0 ∉ chunks.flatMap Prod.snd)
    (r : Req) (hs : (parseChunks (reqReset r) chunks).1 = none)
    (hb : (parseChunks (reqReset r) chunks).2.phase = .body) :
    (parseChunks (reqReset r) chunks).2.version =
      (versionOf (chunks.flatMap Prod.snd)).take REQ_VERSZ ∧
      ((parseChunks (reqReset r) chunks).2.alive = false ↔
        ∃ h ∈ (fieldLines (chunks.flatMap Prod.snd)).map cutField, h.closes) ∧
      (parseChunks (reqReset r) chunks).2.hdrs =
        (((fieldLines (chunks.flatMap Prod.snd)).map cutField).filter Hdr.ordinary).reverse := by
  obtain ⟨⟨m, -, hout⟩, hall⟩ := parseChunks_accepted hchunks rfl hs hb
  obtain ⟨hstart, hfields⟩ := clean_lines hnul
  obtain ⟨-, halive, hhdrs, -, -, -, hversion⟩ := foldl_addField
    (r := (reqReset r).begun m (startLine (chunks.flatMap Prod.snd))) fun l hl =>
      ⟨(hall l hl).2, hfields l hl⟩
  obtain ⟨h1, h2, h3⟩ := begun_rest hstart r m
  rw [hout]
  refine ⟨hversion.trans h1, ?_, ?_⟩
  · show ((fieldLines (chunks.flatMap Prod.snd)).foldl Req.addField _).alive = false ↔ _
    rw [halive, h2]
    simp
  · show ((fieldLines (chunks.flatMap Prod.snd)).foldl Req.addField _).hdrs = _
    rw [hhdrs, h3, List.append_nil]

/-- A head that is accepted holds what its lines say. -/
theorem accepted_holds {chunks : List (Byte × List Byte)}
    (hchunks : ∀ chunk ∈ chunks, chunk.2.getLast? = some LF) (hnul : 0 ∉ chunks.flatMap Prod.snd)
    (hscheme : schemeEnd ((targetOf (chunks.flatMap Prod.snd)).take REQ_URISZ) = none) (r : Req)
    (hs : (parseChunks (reqReset r) chunks).1 = none)
    (hb : (parseChunks (reqReset r) chunks).2.phase = .body) :
    Holds ((targetOf (chunks.flatMap Prod.snd)).take REQ_URISZ)
    ((versionOf (chunks.flatMap Prod.snd)).take REQ_VERSZ)
      ((fieldLines (chunks.flatMap Prod.snd)).map cutField)
      (parseChunks (reqReset r) chunks).2 := by
  obtain ⟨hversion, halive, hhdrs⟩ := accepted_rest hchunks hnul r hs hb
  obtain ⟨⟨m, -, hout⟩, hall⟩ := parseChunks_accepted hchunks rfl hs hb
  obtain ⟨hstart, hfields⟩ := clean_lines hnul
  obtain ⟨hhost, -, -, huri, hparams, htype, -⟩ := foldl_addField
    (r := (reqReset r).begun m (startLine (chunks.flatMap Prod.snd))) fun l hl =>
      ⟨(hall l hl).2, hfields l hl⟩
  obtain ⟨h1, h2, h3, h4, -⟩ := begun_target hstart r m (Req.not_reads hscheme _)
  rw [hout] at hversion halive hhdrs ⊢
  generalize (fieldLines (chunks.flatMap Prod.snd)).foldl Req.addField _ =
    r1 at hhost huri hparams htype hversion halive hhdrs ⊢
  refine ⟨?_, ?_, ?_, hversion, ?_, halive, hhdrs⟩
  · show cstr r1.uri = _
    rw [huri, h1]
    rfl
  · show (r1.params.map fun k => cstr (r1.uri.drop k)) = _
    rw [huri, hparams, h2]
    rfl
  · show r1.type = .dynamic ↔ _
    rw [htype, h3]
    rfl
  · show r1.host = _
    rw [hhost, h4]
    rfl

/-! ## A head that fits -/

/-- Every part of a head fits, and its target is not a scheme alone. -/
structure HeadFits (text : List Byte) : Prop where
  /-- The target. -/
  target : (targetOf text).length ≤ REQ_URISZ
  /-- It is not literally `http://` or `https://`. -/
  scheme : schemeEnd (targetOf text) = none
  /-- The version. -/
  version : (versionOf text).length ≤ REQ_VERSZ
  /-- The keys and the values as they stand there. -/
  fields : ∀ l ∈ fieldLines text, (keyRaw l).length ≤ HDR_KEYSZ ∧ (valRaw l).length ≤ HDR_VALSZ
  /-- The hosts. -/
  host : ∀ l ∈ fieldLines text, (wholeField l).isHost → (wholeField l).val.length ≤ REQ_HOSTSZ

/-- In a head that fits, nothing of a field is cut. -/
theorem HeadFits.cut {text : List Byte} (h : HeadFits text) {l : List Byte}
    (hl : l ∈ fieldLines text) :
    cutField l = wholeField l := by
  obtain ⟨hkey, hval⟩ := h.fields l hl
  rw [cutField, wholeField, keyText, valText, List.take_of_length_le hkey,
    List.take_of_length_le hval]

/-- Hosts that fit overwrite nothing. -/
theorem foldl_overrun
    (hfs : ∀ l ∈ fs, 0 ∉ l ∧ ((cutField l).isHost → (cutField l).val.length ≤ REQ_HOSTSZ)) :
    (fs.foldl Req.addField r).overrun = r.overrun := by
  induction fs generalizing r with
  | nil => rfl
  | cons l fs ih =>
    obtain ⟨hnul, hfit⟩ := hfs l (by simp)
    obtain ⟨hkey, hval⟩ := keyOf_text hnul
    rw [List.foldl_cons, ih fun l hl => hfs l (List.mem_cons_of_mem _ hl), Req.addField]
    rcases hf : parseField r (keyOf l) (valOf l) with _ | r1
    · rfl
    · rw [Option.getD_some, parseField_overrun hf, hkey, hval]
      cases hh : strcaseeq (keyText l) (str "Host") with
      | false => simp
      | true =>
        have hle : (valText l).length ≤ REQ_HOSTSZ := hfit hh
        simp [not_lt.2 hle]

/-- When a head fits, a request that is accepted holds its parts uncut. -/
theorem HeadFits.holds {chunks : List (Byte × List Byte)} (h : HeadFits (chunks.flatMap Prod.snd))
    (hchunks : ∀ chunk ∈ chunks, chunk.2.getLast? = some LF) (hnul : 0 ∉ chunks.flatMap Prod.snd)
    (r : Req) (hs : (parseChunks (reqReset r) chunks).1 = none)
    (hb : (parseChunks (reqReset r) chunks).2.phase = .body) :
    Holds (targetOf (chunks.flatMap Prod.snd)) (versionOf (chunks.flatMap Prod.snd))
      ((fieldLines (chunks.flatMap Prod.snd)).map wholeField)
      (parseChunks (reqReset r) chunks).2 := by
  have htarget := List.take_of_length_le h.target
  have hmap : (fieldLines (chunks.flatMap Prod.snd)).map cutField =
      (fieldLines (chunks.flatMap Prod.snd)).map wholeField :=
        List.map_congr_left fun l hl => h.cut hl
  have hholds := accepted_holds hchunks hnul (by rw [htarget]; exact h.scheme) r hs hb
  rwa [htarget, List.take_of_length_le h.version, hmap] at hholds

/-- The fields of the request are those of the head, when they fit. -/
theorem fields_faithful (chunks : List (Byte × List Byte))
    (hchunks : ∀ chunk ∈ chunks, chunk.2.getLast? = some LF) (hnul : 0 ∉ chunks.flatMap Prod.snd)
    (hfits : HeadFits (chunks.flatMap Prod.snd)) (r : Req)
    (hs : (parseChunks (reqReset r) chunks).1 = none)
    (hb : (parseChunks (reqReset r) chunks).2.phase = .body) :
    Holds (targetOf (chunks.flatMap Prod.snd)) (versionOf (chunks.flatMap Prod.snd))
        ((fieldLines (chunks.flatMap Prod.snd)).map wholeField)
        (parseChunks (reqReset r) chunks).2 ∧
      (parseChunks (reqReset r) chunks).2.overrun = r.overrun := by
  refine ⟨hfits.holds hchunks hnul r hs hb, ?_⟩
  obtain ⟨⟨m, -, hout⟩, -⟩ := parseChunks_accepted hchunks rfl hs hb
  obtain ⟨hstart, hfields⟩ := clean_lines hnul
  have hover := foldl_overrun (r := (reqReset r).begun m (startLine (chunks.flatMap Prod.snd)))
    fun l hl => ⟨hfields l hl, by rw [hfits.cut hl]; exact hfits.host l hl⟩
  have htarget := List.take_of_length_le hfits.target
  rw [hout]
  exact hover.trans
    (begun_target hstart r m
      (by rw [← targetOf, htarget]; exact Req.not_reads hfits.scheme _)).2.2.2.2

/-- A head in two chunks. -/
def cgiHead : List (Byte × List Byte) :=
  [(0, str "GET /cgi/a?b HTTP/1.1\r\nHost: h\r\n"), (LF, str "X: y \r\n\r\n")]

/-- The head is accepted, chunk by chunk. -/
theorem cgiHead_accepted : (∀ chunk ∈ cgiHead, chunk.2.getLast? = some LF) ∧
    (parseChunks (reqReset (reqNew [])) cgiHead).1 = none ∧
    (parseChunks (reqReset (reqNew [])) cgiHead).2.phase = .body ∧
    (parseChunks (reqReset (reqNew [])) cgiHead).2.type = .dynamic := by decide +kernel

/-- The parts of a small head, received in chunks. -/
theorem fields_faithful_cgi :
    Holds (str "/cgi/a?b") (str "HTTP/1.1") [⟨str "Host", str "h"⟩, ⟨str "X", str "y"⟩]
      (parseChunks (reqReset (reqNew [])) cgiHead).2 := by
  have hparts : (fieldLines (cgiHead.flatMap Prod.snd)).map wholeField =
        [⟨str "Host", str "h"⟩, ⟨str "X", str "y"⟩] ∧
      targetOf (cgiHead.flatMap Prod.snd) = str "/cgi/a?b" ∧ versionOf (cgiHead.flatMap Prod.snd) =
        str "HTTP/1.1" ∧
      0 ∉ cgiHead.flatMap Prod.snd := by decide +kernel
  obtain ⟨hfields, htarget, hversion, hnul⟩ := hparts
  obtain ⟨hchunks, hs, hb, -⟩ := cgiHead_accepted
  have h := fields_faithful cgiHead hchunks hnul
    ⟨by decide +kernel, by decide +kernel, by decide +kernel, by decide +kernel, by decide +kernel⟩
      (reqNew []) hs hb
  rw [hfields, htarget, hversion] at h
  exact h.1

/-! ## A head that does not fit -/

/-- Some part of a head is too long for its array. -/
def OverLong (buf : List Byte) : Prop :=
  REQ_URISZ < (targetOf buf).length ∨ REQ_VERSZ < (versionOf buf).length ∨
    ∃ l ∈ fieldLines buf, HDR_KEYSZ < (wholeField l).key.length ∨
      HDR_VALSZ < (wholeField l).val.length

/-- Parts that are too long are cut, as long as the hosts in the head fit: the grammar of the head
does not know their lengths. -/
theorem parts_cut (b : Byte) (r : Req) (buf : List Byte) (hnul : 0 ∉ buf)
    (hend : buf.getLast? = some LF) (hgrammar : (headGrammar (-1) buf).2 = .body)
    (hover : r.overrun = false) (hfit : HostsFit (reqReset r) buf) :
    0 ≤ (reqParse b (reqReset r) buf).1 ∧ (reqParse b (reqReset r) buf).2.phase = .body ∧
      (reqParse b (reqReset r) buf).2.overrun = false ∧
      (REQ_URISZ < (targetOf buf).length →
        cstr (reqParse b (reqReset r) buf).2.uri =
          ((targetOf buf).take REQ_URISZ).takeWhile (· != 63) ∧
          ((reqParse b (reqReset r) buf).2.params.map fun k => cstr
            ((reqParse b (reqReset r) buf).2.uri.drop k)) =
            paramsOf ((targetOf buf).take REQ_URISZ)) ∧
      (reqParse b (reqReset r) buf).2.version = (versionOf buf).take REQ_VERSZ ∧
      (reqParse b (reqReset r) buf).2.hdrs =
        (((fieldLines buf).map cutField).filter Hdr.ordinary).reverse := by
  have hout := reqParse_outcome b (r := reqReset r) rfl hnul hend
  have hrc : (reqParse b (reqReset r) buf).1 = (headGrammar (-1) buf).1 := congrArg Prod.fst hout
  have hbody : (reqParse b (reqReset r) buf).2.phase = .body :=
    (congrArg Prod.snd hout).trans hgrammar
  have h0 : 0 ≤ (reqParse b (reqReset r) buf).1 := hrc ▸ headGrammar_nonneg hgrammar
  have hchunks := parseChunks_single h0
  have htext : [(b, buf)].flatMap Prod.snd = buf := List.append_nil _
  have hends : ∀ chunk ∈ [(b, buf)], chunk.2.getLast? = some LF := by simpa using hend
  obtain ⟨hversion, -, hhdrs⟩ :=
    accepted_rest hends (by rwa [htext]) r (by rw [hchunks]) (by rw [hchunks]; exact hbody)
  rw [hchunks, htext] at hversion hhdrs
  have hmark : (reqParse b (reqReset r) buf).2.overrun = false :=
    (reqParse_overrun (r := reqReset r) (.inl rfl) b hend).2 ⟨hover, hfit⟩
  refine ⟨h0, hbody, hmark, fun hlong => ?_, hversion, hhdrs⟩
  -- A target that is too long is not a scheme.
  have hscheme : schemeEnd ((targetOf buf).take REQ_URISZ) = none := by
    cases hk : schemeEnd ((targetOf buf).take REQ_URISZ) with
    | none => rfl
    | some k =>
      have hlen := schemeEnd_length hk
      rw [List.length_take, min_eq_left hlong.le] at hlen
      have hk9 : k = 8 ∨ k = 9 := by
        unfold schemeEnd at hk
        split_ifs at hk
        · exact .inl (Option.some.inj hk).symm
        · exact .inr (Option.some.inj hk).symm
      simp only [REQ_URISZ] at hlen
      omega
  have hholds := accepted_holds hends (by rwa [htext]) (by rwa [htext]) r (by rw [hchunks])
    (by rw [hchunks]; exact hbody)
  rw [hchunks, htext] at hholds
  exact ⟨hholds.uri, hholds.params⟩

/-- A head with a version of 33 bytes. -/
def longVersion : List Byte := str "GET / HTTP/1.10000000000000000000000000\r\n\r\n"

/-- The grammar accepts the head with the long version. -/
theorem longVersion_clean : 0 ∉ longVersion ∧ longVersion.getLast? = some LF ∧
    (headGrammar (-1) longVersion).2 = .body ∧ REQ_VERSZ < (versionOf longVersion).length := by
  decide +kernel

/-- A version that is too long is cut. -/
theorem parts_cut_version :
    (reqParse 0 (reqReset (reqNew [])) longVersion).2.version =
      (versionOf longVersion).take REQ_VERSZ ∧
      REQ_VERSZ < (versionOf longVersion).length :=
  ⟨(parts_cut 0 (reqNew []) longVersion longVersion_clean.1 longVersion_clean.2.1
    longVersion_clean.2.2.1 rfl (by decide +kernel)).2.2.2.2.1,
    longVersion_clean.2.2.2⟩

/-- A version that is too long is not refused. -/
theorem overlong_accepted :
    ¬ ∀ (b : Byte) (r : Req) (buf : List Byte), r.phase = .start → buf.length ≤ BUFSZ →
    buf.getLast? = some LF → OverLong buf → (reqParse b r buf).1 < 0 := by
  intro h
  have hneg := h 0 (reqNew []) longVersion rfl (by decide +kernel) longVersion_clean.2.1
    (.inr (.inl longVersion_clean.2.2.2))
  exact absurd hneg (by decide +kernel)

end Liso
