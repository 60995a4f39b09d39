import Liso.Parse.Length
import Liso.Parse.Chunks
import Liso.Parse.HeadEnd

/-!
# The body of a request

The body of a stream is what follows its head, as far as the header lines say (`bodyOf`). The parser
finds it in whatever chunks the stream arrives: `Amid` says where it stands inside a head, `Behind`
where it stands behind one, and `Amid.parse` that one chunk of lines leads from the first to one of
the two.
-/

namespace Liso

open Cut (IsLine lines rest)

variable {r r' : Req} {b : Byte} {l x y : List Byte} {ls ls₀ : List (List Byte)} {h : Head} {n : ℕ}

/-! ## The length of the body -/

/-- The length that a header line gives to the body, after those in front of it. -/
def lengthStep (clen : ℤ) (l : List Byte) : ℤ :=
  if strcaseeq (keyOf l) (str "Content-Length") then atoi (valOf l) else clen

/-- The length that the header lines give to the body; negative if they give none. -/
def lengthIn (fields : List (List Byte)) : ℤ := fields.foldl lengthStep (-1)

/-- The length of the body of a stream. -/
def bodySize (stream : List Byte) : ℕ := (lengthIn (fieldLines stream)).toNat

/-- What follows the head of a stream. -/
def behindHead (stream : List Byte) : List Byte := stream.drop (headOf stream).length

/-- The body of a stream, as far as it was received. -/
def bodyOf (stream : List Byte) : List Byte := (behindHead stream).take (bodySize stream)

/-- The number that the last `Content-Length` line of a stream denotes; zero if there is none. -/
def saidSize (stream : List Byte) : ℕ :=
  (((fieldLines stream).filter fun l => strcaseeq (keyOf l) (str "Content-Length")).getLast?.map
    fun l => decimal (wholeVal l)).getD 0

/-- Every `Content-Length` line of a stream denotes that number, which is below `2 ^ 31` and is not
cut. -/
def Said (stream : List Byte) : Prop :=
  ∀ l ∈ fieldLines stream, strcaseeq (keyOf l) (str "Content-Length") = true →
    Numeric l ∧ LengthSound l ∧ decimal (wholeVal l) = saidSize stream

/-- `Said` is decidable. -/
instance (stream : List Byte) : Decidable (Said stream) :=
  inferInstanceAs (Decidable (∀ l ∈ fieldLines stream, _ → _ ∧ _ ∧ _))

/-- The body that the numbers in the head give to a stream, as far as it was received. -/
def saidBody (stream : List Byte) : List Byte := (behindHead stream).take (saidSize stream)

/-- When the head says one length, the parser finds it. -/
theorem Said.bodySize {stream : List Byte} (h : Said stream) :
    bodySize stream = saidSize stream := by
  have hfields : ∀ fields : List (List Byte),
      (∀ l ∈ fields, strcaseeq (keyOf l) (str "Content-Length") = true →
        atoi (valOf l) = decimal (wholeVal l)) →
      (lengthIn fields).toNat =
        ((fields.filter fun l => strcaseeq (keyOf l) (str "Content-Length")).getLast?.map
          fun l => decimal (wholeVal l)).getD 0 := by
    intro fields
    induction fields using List.reverseRecOn with
    | nil => exact fun _ => rfl
    | append_singleton fields l ih =>
      intro hval
      have ih := ih fun l' hl' => hval l' (List.mem_append_left _ hl')
      rw [lengthIn, List.foldl_append, List.foldl_cons, List.foldl_nil, List.filter_append]
      cases hkey : strcaseeq (keyOf l) (str "Content-Length") with
      | true =>
        rw [lengthStep, if_pos hkey, hval l (by simp) hkey, List.filter_singleton, hkey]
        simp
      | false =>
        rw [lengthStep, if_neg (by simp [hkey]), List.filter_singleton, hkey,
          cond_false, List.append_nil]
        exact ih
  exact hfields _ fun l hl hkey => (h l hl hkey).2.1.atoi (h l hl hkey).1

/-- When the head says one length, the parser finds the body that it says. -/
theorem Said.bodyOf {stream : List Byte} (h : Said stream) : bodyOf stream = saidBody stream := by
  rw [Liso.bodyOf, h.bodySize, saidBody]

/-- A header line that is accepted gives the length. -/
theorem parseField_clen (hf : parseField r (keyOf l) (valOf l) = some r') :
    r'.clen = lengthStep r.clen l := by
  unfold lengthStep
  cases hkey : strcaseeq (keyOf l) (str "Content-Length") with
  | true =>
    rw [parseField_length hkey] at hf
    split_ifs at hf
    rw [← Option.some.inj hf, if_pos rfl]
  | false =>
    obtain ⟨r1, hr1, hclen, -⟩ := parseField_other hkey r (valOf l)
    rw [hr1, Option.some.injEq] at hf
    rw [← hf, hclen, if_neg Bool.false_ne_true]

/-! ## The parser on the lines of a chunk -/

/-- Where the parser stands behind the lines `ls` of a chunk, when it has read the lines `ls₀`
before: it has refused the request, or stands inside its head, or behind it. -/
inductive Head.Reads (ls₀ ls : List (List Byte)) (h : Head) : Prop
  /-- The request was refused. -/
  | refused (hs : h.status ≠ none)
  /-- No line was blank so far. -/
  | amid (hs : h.status = none)
      (hp : h.req.phase = .start ∧ ls₀ ++ ls = [] ∨ h.req.phase = .header ∧ ls₀ ++ ls ≠ [])
      (hb : ∀ l ∈ ls₀ ++ ls, blank l = false) (hn : h.used = ls.flatten.length)
      (hc : h.req.clen = lengthIn (ls₀ ++ ls).tail)
  /-- The parser has read up to the first blank line. -/
  | behind (hs : h.status = none) (hp : h.req.phase = .body) (pre : List (List Byte))
      (l : List Byte) (post : List (List Byte)) (hls : ls = pre ++ l :: post)
      (hne : ls₀ ++ pre ≠ []) (hb : ∀ l ∈ ls₀ ++ pre, blank l = false) (hbl : blank l = true)
      (hn : h.used = (pre ++ [l]).flatten.length)
      (hc : h.req.rsize = max (lengthIn (ls₀ ++ pre).tail) 0)

/-- The parser stands where `Reads` says with one line more. -/
theorem Head.Reads.feed (hr : h.Reads ls₀ ls) (hl : IsLine LF l) (b : Byte) :
    (h.feedFrom b l).Reads ls₀ (ls ++ [l]) := by
  cases hr with
  | refused hs =>
    rw [feedFrom, if_neg fun ho => hs ho.1]
    exact .refused hs
  | behind hs hp pre l' post hls hne hb hbl hn hc =>
    rw [feedFrom, if_neg fun ho => by rcases ho.2 with h | h <;> simp [hp] at h]
    exact .behind hs hp pre l' (post ++ [l]) (by rw [hls, List.append_assoc]; rfl) hne hb hbl hn hc
  | amid hs hp hb hn hc =>
    obtain ⟨st, r, u⟩ := h
    obtain rfl : st = none := hs
    dsimp only at hp hn hc
    have hused : u + l.length = (ls ++ [l]).flatten.length := by
      rw [hn, List.flatten_append, List.length_append, List.flatten_singleton]
    have hblank : blank l = false → ∀ l' ∈ ls₀ ++ (ls ++ [l]), blank l' = false := by
      intro hbl l' hl'
      rw [← List.append_assoc, List.mem_append, List.mem_singleton] at hl'
      rcases hl' with hl' | rfl
      · exact hb l' hl'
      · exact hbl
    rcases hp with ⟨hp, hnil⟩ | ⟨hp, hne⟩
    · -- The request line.
      rw [feedFrom, if_pos ⟨rfl, .inl hp⟩, parsePhases_start hp hl]
      rcases hstart : parseStart r ⟨b, l⟩ with ⟨st | d, r'⟩
      · exact .refused (by simp)
      · have hbl : blank l = false := by
          cases hbl : blank l with
          | false => rfl
          | true =>
            obtain ⟨r1, hr1⟩ := parseStart_blank hbl r b
            rw [hr1] at hstart
            simp at hstart
        refine .amid rfl (.inr ⟨(parseStart_ok hl hstart).2, by simp⟩) (hblank hbl) hused ?_
        have hclen := (parseStart_clen r ⟨b, l⟩).1
        rw [hstart] at hclen
        dsimp only at hclen ⊢
        rw [hclen, hc, ← List.append_assoc, hnil]
        rfl
    · cases hbl : blank l with
      | true =>
        -- A blank line ends the head.
        rw [feed_end hl hp hbl]
        split_ifs
        · exact .refused (by simp)
        · exact .refused (by simp)
        · exact .behind rfl rfl ls l [] rfl hne hb hbl hused (by rw [← hc])
      | false =>
        -- A field: a Content-Length replaces the number that was kept before.
        rw [feed_field hl hp hbl]
        cases hf : (if Keyed l then parseField r (keyOf l) (valOf l) else none) with
        | none => exact .refused (by simp)
        | some r' =>
          split_ifs at hf
          refine .amid rfl (.inr ⟨(parseField_phase hf).trans hp, by simp⟩) (hblank hbl) hused ?_
          dsimp only
          rw [parseField_clen hf, hc, ← List.append_assoc, List.tail_append_of_ne_nil hne,
            lengthIn, lengthIn,
            List.foldl_append]
          rfl

/-- Behind the lines of a chunk, the parser stands where `Reads` says. -/
theorem Head.Reads.scan (hr : Head.Reads ls₀ [] ⟨none, r, 0⟩) (hls : ∀ l ∈ ls, IsLine LF l)
    (b : Byte) :
    (Head.scan b r ls).Reads ls₀ ls := by
  induction ls using List.reverseRecOn with
  | nil => exact hr
  | append_singleton ls l ih =>
    obtain ⟨b', hb'⟩ := Head.scan_concat b r ls
    rw [hb' l]
    exact (ih fun l' hl' => hls l' (List.mem_append_left _ hl')).feed (hls l (by simp)) b'

/-! ## The parser on a stream -/

/-- The parser has read the first `n` bytes of `x`, which are lines of its head. -/
def Amid (x : List Byte) (n : ℕ) (r : Req) : Prop :=
  ∃ ls, (∀ l ∈ ls, IsLine LF l) ∧ ls.flatten = x.take n ∧ n ≤ x.length ∧
    (∀ l ∈ ls, blank l = false) ∧
    (r.phase = .start ∧ ls = [] ∨ r.phase = .header ∧ ls ≠ []) ∧ r.clen = lengthIn ls.tail

/-- The stream has a whole head: lines that are not blank, and then one that is. -/
def Headed (x : List Byte) : Prop :=
  ∃ (pre : List (List Byte)) (l y : List Byte), x = (pre ++ [l]).flatten ++ y ∧
    (∀ l' ∈ pre ++ [l], IsLine LF l') ∧
    pre ≠ [] ∧ (∀ l ∈ pre, blank l = false) ∧ blank l = true

/-- The parser has read the first `n` bytes of `x`, which are its head. -/
structure Behind (x : List Byte) (n : ℕ) (r : Req) : Prop where
  /-- The head is whole. -/
  headed : Headed x
  /-- It has `n` bytes. -/
  length : (headOf x).length = n
  /-- The body is due. -/
  rsize : r.rsize = bodySize x

/-- The head of a stream that begins with such lines. -/
theorem headOf_blank {pre : List (List Byte)} (hls : ∀ l' ∈ pre ++ [l], IsLine LF l')
    (hne : pre ≠ []) (hb : ∀ l ∈ pre, blank l = false) (hbl : blank l = true) (y : List Byte) :
    headOf ((pre ++ [l]).flatten ++ y) = (pre ++ [l]).flatten ∧
      fieldLines ((pre ++ [l]).flatten ++ y) = pre.tail := by
  have hlines := Cut.lines_flatten hls y
  constructor
  · rw [headOf, hlines, if_pos (by simp [hbl]), List.append_assoc, List.singleton_append,
      headLines_append hb, headLines,
      if_pos hbl]
  · rw [fieldLines, hlines, List.append_assoc, List.singleton_append,
      List.tail_append_of_ne_nil hne,
      List.takeWhile_append_of_pos fun l hl => by simp [hb l (List.mem_of_mem_tail hl)],
      List.takeWhile_cons_of_neg (by simp [hbl]), List.append_nil]

/-- A request whose parsing begins stands in front of the first line. -/
theorem Amid.start (hp : r.phase = .start) (hc : r.clen = -1) (x : List Byte) : Amid x 0 r :=
  ⟨[], by simp, by simp, Nat.zero_le _, by simp, .inl ⟨hp, rfl⟩, hc⟩

/-- What is received behind the bytes that were read does not matter. -/
theorem Amid.append (h : Amid x n r) (y : List Byte) : Amid (x ++ y) n r := by
  obtain ⟨ls, hls, hflat, hn, hb, hp, hc⟩ := h
  refine ⟨ls, hls, ?_, by rw [List.length_append]; omega, hb, hp, hc⟩
  rw [hflat, List.take_append_of_le_length hn]

/-- The next chunk of lines leads to a place inside the head or behind it. -/
theorem Amid.parse {chunk : List Byte} (h : Amid x n r) (hchunk : chunk <+: x.drop n)
    (hend : chunk.getLast? = some LF) (hrc : ¬ (reqParse b r chunk).1 < 0) :
    ((reqParse b r chunk).2.phase = .header ∧
      Amid x (n + (reqParse b r chunk).1.toNat) (reqParse b r chunk).2) ∨
    ((reqParse b r chunk).2.phase = .body ∧
      Behind x (n + (reqParse b r chunk).1.toNat) (reqParse b r chunk).2) := by
  obtain ⟨ls, hls, hflat, hn, hb, hp, hc⟩ := h
  obtain ⟨y, hy⟩ := hchunk
  have hsplit : x = ls.flatten ++ chunk ++ y := by
    rw [List.append_assoc, hy, hflat, List.take_append_drop]
  have hlen : ls.flatten.length = n := by rw [hflat, List.length_take, Nat.min_eq_left hn]
  have hcls : ∀ l ∈ lines LF chunk, IsLine LF l := fun l hl => Cut.isLine_of_mem hl
  have hcflat := Cut.flatten_lines_of_last hend
  have hphase : r.phase = .start ∨ r.phase = .header := hp.imp And.left And.left
  have hparse := reqParse_scan hcls (hphase.imp_left fun h => ⟨h, Cut.lines_ne_nil hend⟩) b
  have hreads : (Head.scan b r (lines LF chunk)).Reads ls (lines LF chunk) := by
    refine Head.Reads.scan (.amid rfl ?_ ?_ rfl ?_) hcls b <;> rw [List.append_nil]
    · exact hp
    · exact hb
    · exact hc
  rw [hcflat] at hparse
  rw [hparse] at hrc ⊢
  have hs := (Head.scan_sound hphase b (lines LF chunk)).status_eq (not_lt.1 hrc)
  have hfst : (Head.scan b r (lines LF chunk)).parsed.1.toNat =
    (Head.scan b r (lines LF chunk)).used := by
    rw [Head.parsed, hs]
    exact Int.toNat_natCast _
  rw [hfst, Head.parsed_req]
  cases hreads with
  | refused hs' => exact absurd hs hs'
  | amid _ hp' hb' hn' hc' =>
    -- No blank line came: the lines of the chunk are lines of the head.
    have hne : ls ++ lines LF chunk ≠ [] :=
      fun hnil => Cut.lines_ne_nil hend (List.append_eq_nil_iff.1 hnil).2
    have hp' := hp'.resolve_left fun h => hne h.2
    refine .inl ⟨hp'.1, ls ++ lines LF chunk, ?_, ?_, ?_, hb', .inr ⟨hp'.1, hne⟩, hc'⟩
    · intro l hl
      exact (List.mem_append.1 hl).elim (hls l) (hcls l)
    · rw [List.flatten_append, hcflat, hn', hcflat, hsplit, ← hlen, ← List.length_append,
        List.take_left]
    · rw [hn', hcflat, hsplit, List.length_append, List.length_append]
      omega
  | behind _ hp' pre l post hsplit' hne hb' hbl hn' hc' =>
    -- A blank line came: it is the one that ends the head in the whole text, too.
    have hlines : ∀ l' ∈ (ls ++ pre) ++ [l], IsLine LF l' := by
      intro l' hl'
      rw [List.append_assoc, List.mem_append] at hl'
      refine hl'.elim (hls l') fun h => hcls l' ?_
      rw [hsplit', List.append_cons]
      exact List.mem_append_left _ h
    have hx : x = ((ls ++ pre) ++ [l]).flatten ++ (post.flatten ++ y) := by
      rw [hsplit, ← hcflat, hsplit']
      simp
    obtain ⟨hhead, hfields⟩ := headOf_blank hlines hne hb' hbl (post.flatten ++ y)
    rw [← hx] at hhead hfields
    refine .inr ⟨hp', ⟨ls ++ pre, l, post.flatten ++ y, hx, hlines, hne, hb', hbl⟩, ?_, ?_⟩
    · rw [hhead, hn', List.append_assoc, List.flatten_append, List.length_append, hlen]
    · rw [hc', bodySize, hfields]
      omega

/-- The text of the head is a head. -/
theorem Headed.head (h : Headed x) :
    Headed (headOf x) ∧ headOf (headOf x) = headOf x ∧ headOf x <+: x ∧
    (headOf x).getLast? = some LF := by
  obtain ⟨pre, l, y, rfl, hls, hne, hb, hbl⟩ := h
  have hlong := headOf_blank hls hne hb hbl y
  have hshort := headOf_blank hls hne hb hbl []
  rw [List.append_nil] at hshort
  obtain ⟨text, rfl, -⟩ := hls l (by simp)
  refine ⟨⟨pre, text ++ [LF], [], by rw [List.append_nil, hlong.1], hls, hne, hb, hbl⟩, ?_, ?_, ?_⟩
  · rw [hlong.1, hshort.1]
  · exact ⟨y, by rw [hlong.1]⟩
  · rw [hlong.1, List.flatten_append, List.flatten_singleton, ← List.append_assoc,
      List.getLast?_concat]

/-! ## The body of a longer stream -/

/-- More bytes change neither the head nor its header lines. -/
theorem Headed.append (h : Headed x) (y : List Byte) :
    Headed (x ++ y) ∧ headOf (x ++ y) = headOf x ∧ bodySize (x ++ y) = bodySize x := by
  obtain ⟨pre, l, z, rfl, hls, hne, hb, hbl⟩ := h
  have h1 := headOf_blank hls hne hb hbl z
  have h2 := headOf_blank hls hne hb hbl (z ++ y)
  rw [← List.append_assoc] at h2
  refine ⟨⟨pre, l, z ++ y, by rw [List.append_assoc], hls, hne, hb, hbl⟩, ?_, ?_⟩
  · rw [h1.1, h2.1]
  · rw [bodySize, bodySize, h1.2, h2.2]

/-- A head is not longer than its stream. -/
theorem headOf_length_le (x : List Byte) : (headOf x).length ≤ x.length := by
  unfold headOf
  split
  · calc (headLines (lines LF x)).flatten.length ≤ (lines LF x).flatten.length :=
          (List.IsPrefix.flatten (headLines_begins _)).length_le
      _ ≤ x.length := by
          have := congrArg List.length (Cut.flatten_lines LF x)
          rw [List.length_append] at this
          omega
  · exact le_rfl

/-- More bytes of a stream are behind its head. -/
theorem Headed.behindHead_append (h : Headed x) (y : List Byte) :
    behindHead (x ++ y) = behindHead x ++ y := by
  rw [behindHead, behindHead, (h.append y).2.1, List.drop_append_of_le_length (headOf_length_le x)]

end Liso
