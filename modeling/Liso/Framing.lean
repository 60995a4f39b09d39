import Liso.Exchanges
import Liso.Head
import Liso.RoundTrip
import Liso.Lib.Messages

/-!
# What the client reads

The server tells the client where a response ends by its `Content-Length`; a response to a request
for the head alone has no body. A client that reads the stream of responses by these two rules
(`bodyLength`) gets them one by one, each as it was sent (`responses_read`). An error page is sent
with its text to a request for the head, too, and the client would take the text for the next
response; in the runs considered each such request gets a file.
-/

namespace Liso

open Handles (Table Picker)
open Lines (IsLine Message readAll)

variable {conf : Conf} {l : Loop} {fs : Fs} {F : Set Fs} {resp : Resp} {x : List Byte}
  {rs : List (List Byte)}
  {n : ℕ}

/-! ## The rules of the client -/

/-- The length that the header lines tell. -/
def contentLength (lines : List (List Byte)) : Option ℕ :=
  (lines.find? fun line => strncaseeq line (str "Content-Length:") 15).bind fun line =>
    let val := strstrip (line.drop 15)
    if isnum val then some (decimal val) else none

/-- The length of the body of the response; `head` is whether the client asked for the head
alone. -/
def bodyLength (head : Bool) (lines : List (List Byte)) : Option ℕ :=
  if head then some 0 else contentLength lines

/-- The client asks for the head alone. -/
def asksHead (x : List Byte) : Bool := methodAt ⟨LF, startLine x⟩ = some .head

/-! ## Responses are messages -/

/-- The line with the length is found behind the others that every response has, and read. -/
theorem contentLength_hdrLines (conf : Conf) (t : ℤ) {k : ℕ} (h : resp.clen = k) :
    contentLength (hdrLines resp conf t) = some k := by
  obtain ⟨hnum, hval⟩ := decimal_dec k
  have hdigits : ∀ c ∈ dec k, isspace c = false :=
    fun c hc => (isdigit_not_space (List.all_eq_true.1 hnum c hc)).1
  have hstrip : strstrip (32 :: dec k) = dec k := by
    have hmid := strstrip_mid (a := [32]) (v := dec k) (c := []) (by simp [isspace, issp])
      hdigits (by simp)
    rwa [List.append_nil] at hmid
  have hfind : (hdrLines resp conf t).find? (fun line => strncaseeq line (str "Content-Length:") 15)
    =
      some (str "Content-Length" ++ str ": " ++ dec resp.clen) := by
    simp [hdrLines, strncaseeq, strcaseeq, tolower, str]
  have hdrop : (str "Content-Length" ++ str ": " ++ dec resp.clen).drop 15 = 32 :: dec k := by
    rw [h]
    simp [str]
  rw [contentLength, hfind, Option.bind_some, hdrop, hstrip]
  dsimp only
  rw [if_pos hnum, hval]

/-- A header and the body that it announces. -/
theorem hdrLines_sized (hclean : CleanTimes conf) (h : resp.Clean) (t : ℤ) {body : List Byte}
    (hlen : resp.clen = body.length) : Message.Sized contentLength ⟨hdrLines resp conf t, body⟩ :=
  ⟨by simp [hdrLines], hdrLines_isLine hclean t h, contentLength_hdrLines conf t hlen⟩

/-- A page is a message. -/
theorem Resp.page_message (hclean : CleanTimes conf) (h : resp.Clean) (t : ℤ) (alive : Bool) :
    ∃ m : Message, m.bytes = resp.page conf t alive ∧ m.Sized contentLength := by
  have hresp : Resp.Clean { resp with alive := alive, clen := (respMsg resp.status).length } := h
  exact ⟨⟨_, respMsg resp.status⟩, by rw [Resp.page, respHdr_eq, Message.bytes],
    hdrLines_sized hclean hresp t rfl⟩

/-- `resp_build` adds no field that is not a line. -/
theorem respBuild_clean (hclean : CleanTimes conf) (fs : Fs) (pick : Picker) (req : Req)
    (t : Table) :
    (respBuild fs pick respNew req conf t).2.1.Clean := by
  by_cases hm : req.method = .get ∨ req.method = .head
  · exact (respBuild_eq hclean fs pick respNew req t rfl hm).1
  · have htry := respTry_eq fs pick { respNew with alive := req.alive } (respPaths req conf) t
    have hnil : (respBuild fs pick respNew req conf t).2.1.hdrs = [] := by
      unfold respBuild
      dsimp only
      rcases hout : respTry fs pick { respNew with alive := req.alive } (respPaths req conf)
        t with ⟨_ | ⟨st, path⟩, resp', t'⟩ <;>
        rw [hout] at htry
      · rcases htry with ⟨_, _, _, -, -, -, hno, -⟩ | ⟨-, -, m, hresp⟩
        · simp at hno
        · rw [show resp' = _ from hresp]
          rfl
      · rcases htry with ⟨_, _, _, -, -, -, -, hresp⟩ | ⟨-, hno, -⟩
        · dsimp only
          rw [if_neg hm, show resp' = _ from hresp]
          rfl
        · simp at hno
    intro h hh
    rw [hnil] at hh
    simp at hh

/-- The answer to a request is a message for the client that sent it, unless it is a page for a
request for the head. -/
theorem answer_message (hclean : CleanTimes conf) (hx : Framed x)
    (hhead : asksHead x = true → Found conf fs x) (t : ℤ) :
    ∃ m : Message, m.bytes = answer conf fs t x ∧ m.Sized (bodyLength (asksHead x)) := by
  by_cases hfound : Found conf fs x
  · obtain ⟨hs, hb⟩ := hfound
    have hasks : asksHead x = decide ((scanHead (reqNew []) x).req.method = .head) := by
      rw [asksHead, hx.method reqNew_fresh hs, decide_eq_decide, Option.some_inj]
    obtain ⟨path, st, file, -, -, -, -, hclen, hmm⟩ := respBuild_file Picker.lowest hb
    have hbuilt := respBuild_clean hclean fs Picker.lowest (scanHead (reqNew []) x).req ⟨[], 0⟩
    rw [answer, reply, hs]
    dsimp only
    rw [if_neg hb, hmm, respHdr_eq]
    by_cases hm : (scanHead (reqNew []) x).req.method = .head
    · rw [if_pos hm, hasks, decide_eq_true hm]
      exact ⟨⟨_, []⟩, rfl, ⟨by simp, hdrLines_isLine hclean t hbuilt, rfl⟩⟩
    · rw [if_neg hm, hasks, decide_eq_false hm]
      refine ⟨⟨_, file.takeD st.size 0⟩, rfl, hdrLines_sized hclean hbuilt t ?_⟩
      rw [hclen, List.takeD_length]
  · -- The server has a page.
    have hno : asksHead x = false := by simpa using mt hhead hfound
    rw [hno, answer, reply]
    split
    · exact Resp.page_message hclean (fun h hh => by simp [respNew, respReset] at hh) t _
    · rename_i hs
      dsimp only
      have hb := Classical.not_not.1 fun hb => hfound ⟨hs, hb⟩
      rw [if_pos hb]
      exact Resp.page_message hclean (respBuild_clean hclean _ _ _ _) t _

/-! ## Every run -/

/-- There are no more exchanges than requests. -/
theorem InOrder.length_le (h : InOrder conf F rs c) : c.wire.past.length ≤ rs.length := by
  by_contra hlt
  rw [not_le] at hlt
  obtain ⟨x, hx, -⟩ := h.past rs.length c.wire.past[rs.length] (List.getElem?_eq_getElem hlt)
  rw [List.getElem?_eq_none le_rfl] at hx
  simp at hx

/-- The exchanges that ended, each beside its request. -/
theorem InOrder.forall₂ (h : InOrder conf F rs c) :
    List.Forall₂ (fun ex x => ∃ fs ∈ F, ∃ t, ex.sent = answer conf fs t x) c.wire.past
      (rs.take c.wire.past.length) := by
  have hlen := h.length_le
  refine List.forall₂_iff_get.2 ⟨by rw [List.length_take, min_eq_left hlen], fun i hi hi' => ?_⟩
  obtain ⟨x, hx, fs, hfs, t, ht⟩ := h.past i c.wire.past[i] (List.getElem?_eq_getElem hi)
  have hx : rs[i]? = some x := hx
  have hget : (rs.take c.wire.past.length).get ⟨i, hi'⟩ = x := by
    rw [List.get_eq_getElem, List.getElem_take]
    exact List.getElem_eq_iff _ |>.2 hx
  exact ⟨fs, hfs, t, by rw [hget]; exact ht⟩

/-- The messages that the exchanges sent. -/
theorem messages_of_pasts (hclean : CleanTimes conf) {past : List Exchange} {xs : List (List Byte)}
    (hxs : ∀ x ∈ xs, Framed x) (hhead : ∀ fs ∈ F, ∀ x ∈ xs, asksHead x = true → Found conf fs x)
    (h : List.Forall₂ (fun ex x => ∃ fs ∈ F, ∃ t, ex.sent = answer conf fs t x) past xs) :
    ∃ ms : List ((List (List Byte) → Option ℕ) × Message), (∀ p ∈ ms, p.2.Sized p.1) ∧
      ms.map Prod.fst = xs.map (fun x => bodyLength (asksHead x)) ∧
      ms.map (fun p => p.2.bytes) = past.map Exchange.sent := by
  induction h with
  | nil => exact ⟨[], by simp, rfl, rfl⟩
  | @cons ex x past xs hone htail ih =>
    obtain ⟨fs, hfs, t, ht⟩ := hone
    obtain ⟨m, hbytes, hsized⟩ :=
      answer_message hclean (hxs x (by simp)) (hhead fs hfs x (by simp)) t
    obtain ⟨ms, hall, hfst, hsnd⟩ := ih (fun y hy => hxs y (List.mem_cons_of_mem _ hy))
      fun fs hfs y hy => hhead fs hfs y (List.mem_cons_of_mem _ hy)
    refine ⟨(bodyLength (asksHead x), m) :: ms, ?_, ?_, ?_⟩
    · intro p hp
      rcases List.mem_cons.1 hp with rfl | hp
      · exact hsized
      · exact hall p hp
    · rw [List.map_cons, List.map_cons, hfst]
    · rw [List.map_cons, List.map_cons, hsnd, hbytes, ht]

/-- The client that reads the responses by their lengths gets each as it was sent, and the beginning
of the one under way. -/
theorem responses_read (hclean : CleanTimes conf) (hrs : ∀ x ∈ rs, Plain x)
    (hhead : ∀ fs ∈ F, ∀ x ∈ rs, asksHead x = true → Found conf fs x)
    (h : Reach conf (fun l ev => Visiting (Serving conf n rs) l ev ∧ ev.env.fs ∈ F) l) :
    ∀ c ∈ l.srv.pool.conns, c.Unmarked ∧ (c.wire.id = n →
      ∃ ms : List Message, ms.map Message.bytes = c.wire.past.map Exchange.sent ∧
        readAll ((rs.take c.wire.past.length).map fun x => bodyLength (asksHead x))
          ((c.wire.past.map Exchange.sent).flatten ++ c.wire.cur.sent) =
            some (ms, c.wire.cur.sent)) := by
  refine fun c hc => ⟨attending_unmarked (reach_attending h) c hc, fun hid => ?_⟩
  have ha :=
    (answering_inv (fun x hx => (hrs x hx).proper) (reach_attending h) c hc).2 hid
  have hpast := (ha.inOrder hrs).forall₂
  obtain ⟨ms, hall, hfst, hsnd⟩ := messages_of_pasts hclean
    (fun x hx => (hrs x (List.mem_of_mem_take hx)).framed)
      (fun fs hfs x hx => hhead fs hfs x (List.mem_of_mem_take hx)) hpast
  refine ⟨ms.map Prod.snd, ?_, ?_⟩
  · rw [← hsnd, List.map_map]
    rfl
  · rw [← hfst, ← hsnd]
    exact Lines.readAll_bytes ms hall _

/-- The answers of the run with three requests, the last of them for the head alone. -/
theorem responses_read_three :
    ∃ c ∈ (Runs.exec (step Sample.conf) Sample.start threeRun).srv.pool.conns,
      c.wire.past.length = 3 ∧
      ∃ ms : List Message, ms.map Message.bytes = c.wire.past.map Exchange.sent ∧
        readAll ((threeRequests.take c.wire.past.length).map fun x => bodyLength (asksHead x))
          ((c.wire.past.map Exchange.sent).flatten ++ c.wire.cur.sent) =
            some (ms, c.wire.cur.sent) := by
  obtain ⟨hrs, hrun, c, hc, hid, hpast⟩ := threeRun_serving
  have hfs : ∀ ev ∈ threeRun, ev.env.fs = Sample.fs := by
    simp [threeRun, Sample.connect, Sample.select, Sample.recv, Sample.next,
      Sample.visit, Sample.env]
  have hhead : ∀ fs ∈ ({Sample.fs} : Set Fs), ∀ x ∈ threeRequests,
      asksHead x = true → Found Sample.conf fs x := by
    rintro _ rfl
    decide +kernel
  exact ⟨c, hc, hpast,
    (responses_read clean_sample hrs hhead
      ((Runs.Reach.start Sample.start_init).along _ (hrun.and hfs)) c hc).2 hid⟩

end Liso
