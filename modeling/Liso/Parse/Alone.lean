import Liso.Parse.Framed
import Liso.Parse.Faithful

/-!
# What a request says by itself

The parser works on a request that was reset, whose array still holds what an earlier one left.
Apart from these bytes the outcome is a function of the text alone: two requests that were reset
come to the same status and see the same fields (`scanHead_alone`), unless the target is a scheme
alone. `Understood` says of an accepted request that it holds the parts of its text, and
`Framed.understood` that this is so whenever they fit.
-/

namespace Liso

open Cut (IsLine lines)

variable {r r' : Req} {h h' : Head} {x l : List Byte} {ls : List (List Byte)}

/-! ## Two requests that were reset -/

/-- What two alike requests ask for. -/
theorem Alike.asks (h : Alike r r') :
    r.method = r'.method ∧ r.alive = r'.alive ∧ r.type = r'.type := by
  have hasks := congrArg (fun r : Req => (r.method, r.alive, r.type)) h.core
  simpa [Req.core] using hasks

/-- The outcomes of the parser on two requests agree, apart from the array. -/
structure Head.Alike (h h' : Head) : Prop where
  /-- The status. -/
  status : h.status = h'.status
  /-- The bytes parsed. -/
  used : h.used = h'.used
  /-- The request. -/
  req : Liso.Alike h.req h'.req

/-- Behind its first line a request has left its first phase. -/
theorem Head.feed_ne_start (h : Head) (l : List Byte) :
    (h.feed l).Open → (h.feed l).req.phase ≠ .start := by
  unfold Head.feed Head.feedFrom
  split
  · rename_i ho
    have hp := parsePhases_phased h.req ⟨LF, l⟩ ho.2
    rcases hout : parsePhases h.req ⟨LF, l⟩ with ⟨st | d, r1⟩ <;> rw [hout] at hp
    · exact fun ho' => by simp [Head.Open] at ho'
    · intro _ hs
      have hs : r1.phase = .start := hs
      rcases hp with hp | hp <;> (have hp : r1.phase = _ := hp; simp [hs] at hp)
  · rename_i ho
    exact fun ho' => absurd ho' ho

/-- Two heads that are alike are so with one line more. -/
theorem Head.Alike.feed (ha : h.Alike h') (l : List Byte)
    (hr : h.Open → h.req.phase = .start → (methodAt ⟨LF, l⟩).isSome →
      ¬ h.req.Reads (targetAt ⟨LF, l⟩) ∧ ¬ h'.req.Reads (targetAt ⟨LF, l⟩)) :
    (h.feed l).Alike (h'.feed l) := by
  have hphase : h'.req.phase = h.req.phase := by rw [Req.eq_of_core ha.req.core]
  have hopen : h'.Open ↔ h.Open := by rw [Head.Open, Head.Open, ha.status, hphase]
  unfold Head.feed Head.feedFrom
  by_cases ho : h.Open
  · rw [if_pos ho, if_pos (hopen.2 ho), ha.used]
    obtain ⟨h1, h2⟩ := parsePhases_alike ⟨LF, l⟩ ha.req (hr ho)
    rcases hs : parsePhases h.req ⟨LF, l⟩ with ⟨st | d, r1⟩ <;>
      rcases hs' : parsePhases h'.req ⟨LF, l⟩ with ⟨st' | d', r1'⟩ <;> rw [hs, hs'] at h1 h2
    · rw [Except.error.injEq] at h1
      exact ⟨by rw [h1], rfl, h2⟩
    · simp at h1
    · simp at h1
    · exact ⟨rfl, rfl, h2⟩
  · rw [if_neg ho, if_neg (hopen.not.2 ho)]
    exact ha

/-- More lines, behind the first one. -/
theorem Head.Alike.foldl (ha : h.Alike h') (hp : h.Open → h.req.phase ≠ .start)
    (ls : List (List Byte)) :
    (ls.foldl Head.feed h).Alike (ls.foldl Head.feed h') := by
  induction ls generalizing h h' with
  | nil => exact ha
  | cons l ls ih => exact ih (ha.feed l fun ho hs => absurd hs (hp ho)) (h.feed_ne_start l)

/-! ## The client -/

/-- The request of another client. -/
def Req.peer (q r : Req) : Req := { r with addr := q.addr, port := q.port, scheme := q.scheme }

/-- The two requests take a scheme from the target alike. -/
theorem absolute_peer (q r : Req) : (q.peer r).absolute = q.peer r.absolute := by
  unfold Req.absolute
  rw [show (q.peer r).uri = r.uri from rfl]
  cases schemeEnd (cstr r.uri) with
  | none => rfl
  | some k =>
    dsimp only
    split <;> rfl

/-- The two requests parse the request line alike. -/
theorem parseStart_peer (q r : Req) (d : Cur) :
    parseStart (q.peer r) d = ((parseStart r d).1, q.peer (parseStart r d).2) := by
  cases hm : methodAt d with
  | none =>
    obtain ⟨status, he⟩ := parseStart_none hm
    rw [he, he]
    rfl
  | some m =>
    rw [parseStart_some hm, parseStart_some hm, show (q.peer r).named m (targetAt d) =
      q.peer (r.named m (targetAt d)) from rfl,
      absolute_peer]
    generalize (r.named m (targetAt d)).absolute = r1
    rw [Req.split_eq, Req.split_eq]
    cases endAt d <;> rfl

/-- The two requests parse a header field alike. -/
theorem parseField_peer (q r : Req) (key val : List Byte) :
    parseField (q.peer r) key val = (parseField r key val).map q.peer := by
  unfold parseField
  generalize strcaseeq key (str "Host") = b1, strcaseeq key (str "Content-Length") = b2,
    isnum val = b3,
    strcaseeq key (str "Connection") = b4, strcaseeq val (str "close") = b5, atoi val = n
  cases b1
  · cases b2
    · cases b4
      · rfl
      · cases b5 <;> rfl
    · cases b3 <;> rfl
  · rfl

/-- The two requests parse a header line alike. -/
theorem parseHeader_peer (q r : Req) (p d : Cur) :
    parseHeader (q.peer r) p d = ((parseHeader r p d).1, q.peer (parseHeader r p d).2) := by
  unfold parseHeader
  dsimp only
  split
  · rfl
  · rw [parseField_peer]
    cases parseField r _ _ <;> rfl

/-- The two requests parse the header lines alike. -/
theorem parseHeaders_peer (q : Req) (n : ℕ) (r : Req) (d : Cur) :
    parseHeaders n (q.peer r) d = ((parseHeaders n r d).1, q.peer (parseHeaders n r d).2) := by
  induction n generalizing r d with
  | zero => rfl
  | succ n ih =>
    unfold parseHeaders
    dsimp only
    split
    · rfl
    · split
      · unfold parseEnd
        by_cases hclen : r.clen < 0 <;> by_cases hpost :
          r.method = .post <;> simp [Req.peer, refuse, hclen, hpost]
      · rw [parseHeader_peer]
        rcases parseHeader r (proceedLine d).1 (proceedLine d).2 with ⟨st | d1, r1⟩
        · rfl
        · exact ih r1 d1

/-- No part of the parser looks at the client. -/
theorem parsePhases_peer (q r : Req) (d : Cur) :
    parsePhases (q.peer r) d = ((parsePhases r d).1, q.peer (parsePhases r d).2) := by
  unfold parsePhases
  rw [show (q.peer r).phase = r.phase from rfl, parseStart_peer]
  split
  · rcases parseStart r d with ⟨st | d1, r1⟩
    · rfl
    · exact parseHeaders_peer q _ r1 d1
  · split
    · exact parseHeaders_peer q _ r d
    · rfl

/-- The parser on the request of another client. -/
theorem scanHead_peer (q r : Req) (x : List Byte) :
    scanHead (q.peer r) x = { scanHead r x with req := q.peer (scanHead r x).req } := by
  have hfeed : ∀ (h : Head) (l : List Byte),
      Head.feed { h with req := q.peer h.req } l =
        { h.feed l with req := q.peer (h.feed l).req } := by
    intro h l
    unfold Head.feed Head.feedFrom
    have hopen : Head.Open { h with req := q.peer h.req } ↔ h.Open := Iff.rfl
    by_cases ho : h.Open
    · rw [if_pos ho, if_pos (hopen.2 ho)]
      dsimp only
      rw [parsePhases_peer]
      rcases parsePhases h.req ⟨LF, l⟩ with ⟨st | d, r1⟩ <;> rfl
    · rw [if_neg ho, if_neg (hopen.not.2 ho)]
  have hfold : ∀ (ls : List (List Byte)) (h : Head),
    ls.foldl Head.feed { h with req := q.peer h.req } =
      { ls.foldl Head.feed h with req := q.peer (ls.foldl Head.feed h).req } := by
    intro ls
    induction ls with
    | nil => exact fun h => rfl
    | cons l ls ih => exact fun h => by rw [List.foldl_cons, hfeed, ih, List.foldl_cons]
  exact hfold (lines LF x) ⟨none, r, 0⟩

/-- A text means the same to two requests that were reset, unless its target is a scheme alone. -/
theorem scanHead_alone (hr : r.Fresh) (hr' : r'.Fresh) (x : List Byte)
    (hscheme : schemeEnd (strncpy0 (targetOf x) REQ_URISZ) = none) :
    (scanHead r x).Alike { scanHead r' x with req := r.peer (scanHead r' x).req } := by
  have hreset : ∀ r : Req, r.Fresh → cstr r.uri = [] ∧ r.params = none ∧
    r.core = r.peer (reqNew []).core := by
    intro r hr
    rw [← hr.reset]
    exact ⟨rfl, rfl, rfl⟩
  obtain ⟨huri, hparams, hcore⟩ := hreset r hr
  obtain ⟨huri', hparams', hcore'⟩ := hreset r' hr'
  have ha : Head.Alike ⟨none, r, 0⟩ ⟨none, r.peer r', 0⟩ := by
    refine ⟨rfl, rfl, ?_, ?_, ?_⟩
    · calc r.core = r.peer (reqNew []).core := hcore
        _ = r.peer r'.core := by rw [hcore']; rfl
    · exact huri.trans huri'.symm
    · rw [hparams, show (r.peer r').params = none from hparams']
      rfl
  rw [← scanHead_peer]
  rw [targetOf, startLine] at hscheme
  unfold scanHead
  have hlines : ∀ l ∈ lines LF x, IsLine LF l := fun l hl => Cut.isLine_of_mem hl
  cases hls : lines LF x with
  | nil => exact ha
  | cons l ls =>
    rw [hls] at hscheme hlines
    have htarget : schemeEnd (targetAt ⟨LF, l⟩) = none := by
      rw [targetAt_text (hlines l (by simp))]
      exact hscheme
    exact Head.Alike.foldl
      (ha.feed l fun _ _ _ => ⟨Req.not_reads htarget _, Req.not_reads htarget _⟩)
      (Head.feed_ne_start _ l) ls

/-! ## The parts of the text -/

/-- The request holds what its text says. -/
structure Understood (x : List Byte) (r : Req) : Prop where
  /-- The method. -/
  method : methodAt ⟨LF, startLine x⟩ = some r.method
  /-- The target, the version, and the header lines. -/
  parts : Holds (targetOf x) (versionOf x) ((fieldLines x).map wholeField) r
  /-- The length of the body. -/
  clen : r.clen = bodySize x

/-- The parts of a request are in its head. -/
theorem Headed.parts (h : Headed x) :
    startLine (headOf x) = startLine x ∧ fieldLines (headOf x) = fieldLines x := by
  obtain ⟨pre, l, y, rfl, hls, hne, hb, hbl⟩ := h
  have hlong := headOf_blank hls hne hb hbl y
  have hshort := headOf_blank hls hne hb hbl []
  rw [List.append_nil] at hshort
  obtain ⟨l0, pre, rfl⟩ := List.exists_cons_of_ne_nil hne
  refine ⟨?_, by rw [hlong.1, hshort.2, hlong.2]⟩
  have h1 := Cut.lines_flatten hls y
  have h2 := Cut.lines_flatten hls []
  rw [List.append_nil] at h2
  rw [hlong.1, startLine, startLine, h1, h2]
  rfl

/-- What the parser returns for the head. -/
theorem Framed.parse (h : Framed x) (hr : r.Fresh) :
    reqParse LF r (headOf x) = (scanHead r x).parsed := by
  have hend := h.headed.head.2.2.2
  have hls : ∀ l ∈ lines LF (headOf x), IsLine LF l := fun l hl => Cut.isLine_of_mem hl
  have hparse := reqParse_lines hls (Cut.lines_ne_nil hend) (.inl hr.phase) (b := LF)
    (.inl hr.phase)
  rw [Cut.flatten_lines_of_last hend] at hparse
  rw [hparse, h.headed.scan h.crlf]
  rfl

/-- No header line changes the method. -/
theorem foldl_addField_method (fs : List (List Byte)) (r : Req) :
    (fs.foldl Req.addField r).method = r.method := by
  have hone : ∀ (r : Req) (l : List Byte), (r.addField l).method = r.method := by
    intro r l
    unfold Req.addField
    rcases hf : parseField r (keyOf l) (valOf l) with _ | r1
    · rfl
    · show r1.method = r.method
      unfold parseField at hf
      split_ifs at hf
      all_goals
        rw [← Option.some.inj hf]
        try split_ifs
        all_goals rfl
  induction fs generalizing r with
  | nil => rfl
  | cons l fs ih => rw [List.foldl_cons, ih, hone]

/-- The method of the request line is the one of the request. -/
theorem begun_method (r : Req) (m : Method) (l : List Byte) : (r.begun m l).method = m := by
  rw [Req.begun, Req.split_eq, Req.absolute_rest]
  rfl

/-- The head of an accepted request as one chunk. -/
theorem Framed.chunk (h : Framed x) (hr : r.Fresh) (hs : (scanHead r x).status = none) :
    parseChunks r [(LF, headOf x)] = (none, (scanHead r x).req) ∧
      ∀ chunk ∈ [(LF, headOf x)], chunk.2.getLast? = some LF := by
  have hparse := h.parse hr
  have hrc : 0 ≤ (reqParse LF r (headOf x)).1 := by
    rw [hparse, Head.parsed, hs]
    exact Int.natCast_nonneg _
  have hone := parseChunks_single hrc
  rw [hparse, Head.parsed_req] at hone
  exact ⟨hone, by simpa using h.headed.head.2.2.2⟩

/-- The method of an accepted request is that of its text. -/
theorem Framed.method (h : Framed x) (hr : r.Fresh) (hs : (scanHead r x).status = none) :
    methodAt ⟨LF, startLine x⟩ = some (scanHead r x).req.method := by
  obtain ⟨hone, hchunk⟩ := h.chunk hr hs
  have htext : [(LF, headOf x)].flatMap Prod.snd = headOf x := by simp
  obtain ⟨⟨m, hm, hout⟩, -⟩ :=
    parseChunks_accepted hchunk hr.phase (by rw [hone]) (by rw [hone]; exact (h.total hr hs).1)
  rw [htext, h.headed.parts.1] at hm
  rw [hone, htext] at hout
  have hout : (scanHead r x).req = _ := hout
  rw [hm, hout, Req.complete, foldl_addField_method, begun_method]

/-- A request that is accepted holds its text, when its parts fit. -/
theorem Framed.understood (h : Framed x) (hr : r.Fresh) (hs : (scanHead r x).status = none)
    (hnul : 0 ∉ headOf x) (hfits : HeadFits x) : Understood x (scanHead r x).req := by
  obtain ⟨hb, hused, hclen⟩ := h.total hr hs
  have hsized := (scanHead_sound hr.phase x).sized hb
  obtain ⟨hone, hchunk⟩ := h.chunk hr hs
  have htext : [(LF, headOf x)].flatMap Prod.snd = headOf x := by simp
  have hstart := h.headed.parts.1
  have hfields := h.headed.parts.2
  have hfits' : HeadFits (headOf x) := by
    refine ⟨?_, ?_, ?_, ?_, ?_⟩
    · rw [targetOf, hstart]; exact hfits.target
    · rw [targetOf, hstart]; exact hfits.scheme
    · rw [versionOf, hstart]; exact hfits.version
    · rw [hfields]; exact hfits.fields
    · rw [hfields]; exact hfits.host
  have hholds := HeadFits.holds (by rwa [htext]) hchunk
    (by rwa [htext]) r (by rw [hr.reset, hone]) (by rw [hr.reset, hone]; exact hb)
  rw [hr.reset, htext, hone, targetOf, versionOf, hstart, hfields] at hholds
  have hlen := h.length
  exact ⟨h.method hr hs, hholds, by omega⟩

end Liso
