import Liso.Loop.Calls
import Liso.Loop.Sample
import Liso.Numbers

/-!
# Every connection can be woken up

A connection waits in `select` for the bits that its phases ask for. One section of the loop clears
the write bit after the success callback of a CGI's response may already have taken the next request
from `last_buf` and set that bit for it, so that a client which pipelines a request behind that of a
CGI can hang (`awake_lost`). In every run in which what the callback takes over needs no write bit,
every connection has its bits at every point; the hosts and the numbers of the descriptors must fit,
so that neither the phases nor the sets are overwritten.
-/

namespace Liso

variable {conf : Conf} {l : Loop}

/-- The connection is watched for what its phases wait for. -/
def Awake (c : Conn) (s : Srv) : Prop :=
  (c.req.phase = .start ∨ c.req.phase = .header ∨ c.req.phase = .body → c.fd ∈ s.pool.read_set) ∧
  (c.req.phase = .abort ∨ c.req.phase = .done ∧ c.req.type = .static → c.fd ∈ s.pool.write_set) ∧
  (c.req.phase = .done → c.req.type = .dynamic →
    (c.cgi.buf_phase = .send ∨ c.cgi.phase = .ready → c.fd ∈ s.pool.write_set) ∧
    (c.cgi.phase = .cgiToSrv → c.cgi.buf_phase = .recv → ∃ d ∈ c.cgi.srv_in, d ∈ s.pool.read_set))

/-- `Awake` is decidable. -/
instance (c : Conn) (s : Srv) : Decidable (Awake c s) :=
  inferInstanceAs
    (Decidable ((_ → _) ∧ (_ → _) ∧ (_ → _ → (_ → _) ∧ (_ → _ → ∃ d ∈ c.cgi.srv_in, _))))

/-- The bits of a connection at rest. -/
theorem Rest.toAwake {c : Conn} {s : Srv} (h : Rest True c s) : Awake c s := by
  refine ⟨fun ho => (h.bits.opened ho).1, fun hp => h.wake trivial ?_,
    fun hp ht => ⟨?_, fun hg _ => ?_⟩⟩
  · exact hp.imp_right fun hp => ⟨hp.1, .inl hp.2⟩
  · rintro (hb | hg)
    · exact h.bits.send hb
    · exact h.wake trivial (.inr ⟨hp, .inr hg⟩)
  · rcases h.shape.of_done hp with ⟨-, hg'⟩ | ⟨-, -, hg' | ⟨-, hin⟩ | hg'⟩
    · simp [hg] at hg'
    · simp [hg] at hg'
    · obtain ⟨d, hd⟩ := Option.ne_none_iff_exists'.1 hin
      exact ⟨d, hd, h.bits.relay hg d hd⟩
    · simp [hg] at hg'

/-- The condition on a visit: what the success callback takes over needs no write bit, the hosts
that are parsed fit, and so do the numbers of the pipes of a CGI. -/
def Wakes (conf : Conf) (e : Env) (c : Conn) (s : Srv) : Prop :=
  CallsOpen conf e c s ∧ Hosted conf e c s ∧ PipesFit e c s

/-- `Wakes` is decidable. -/
instance (e : Env) (c : Conn) (s : Srv) : Decidable (Wakes conf e c s) :=
  inferInstanceAs (Decidable (_ ∧ _ ∧ _))

/-- In the runs whose visits meet the condition, every connection has the bits that it waits for; no
copy of a host was too long, and no use of a set was outside it. -/
theorem awake (h : Reach conf (Visiting (Wakes conf)) l) :
    (∀ c ∈ l.srv.pool.conns, Awake c l.srv ∧ c.Unmarked) ∧ l.srv.bad_fd = false := by
  have hopen := h.visiting fun _ _ _ h => h.1
  have hmark := unmarked_inv (h.visiting fun _ _ _ h => h.2.1)
  refine ⟨fun c hc => ⟨?_, hmark c hc⟩, (fits_inv (h.visiting fun _ _ _ h => h.2.2)).2⟩
  exact (rest_inv (W := True) (fun _ _ _ h => h) hopen c hc).toAwake

/-- A request that is not complete yet follows the one for the CGI. -/
theorem awake_partial :
    (Runs.exec (step Sample.conf) Sample.start
      (Sample.cgi "GET /x HTTP/1.1\r\n")).srv.pool.conns.length = 1 ∧
      (∀ c ∈ (Runs.exec (step Sample.conf) Sample.start
          (Sample.cgi "GET /x HTTP/1.1\r\n")).srv.pool.conns,
        Awake c (Runs.exec (step Sample.conf) Sample.start
          (Sample.cgi "GET /x HTTP/1.1\r\n")).srv ∧ c.Unmarked) ∧
      (Runs.exec (step Sample.conf) Sample.start
        (Sample.cgi "GET /x HTTP/1.1\r\n")).srv.bad_fd = false :=
  ⟨by decide +kernel, awake ((Runs.Reach.start Sample.start_init).along _ (by decide +kernel))⟩

/-- A complete request follows the one for the CGI: it is parsed when the response ends, and its
write bit is cleared. -/
theorem awake_lost : ¬ ∀ l, Reach Sample.conf Runs.any l → l.pc = .select →
    ∀ c ∈ l.srv.pool.conns, Awake c l.srv := by
  intro h
  have := h _ (Sample.reach (Sample.cgi "GET /x HTTP/1.1\r\n\r\n")) (by decide +kernel)
  revert this
  decide +kernel

end Liso
