import Liso.Lib.Paths
import Liso.Response
import Liso.Parse.Faithful

/-!
# The document root

`resp_build` puts the target of a request right behind the `www` folder and opens what it gets. No
function looks at the components of the target, so that `/../x` names a file beside the folder
(`target_escapes`), and so does a target that does not begin with a slash, which goes on with the
last name of the folder. `confined_iff` says which of the targets that the parser accepts are safe:
the paths lie in the folder for every folder if and only if what `uri` holds of the target is empty,
or begins with a slash and never climbs above its start.
-/

namespace Liso

open Paths (locate Descends)

/-- `'/'`. -/
def SLASH : Byte := 47

/-- `'.'`. -/
def DOT : Byte := 46

/-- The path denotes a location in the folder. -/
def InFolder (www path : List Byte) : Prop := (locate SLASH DOT path).Under (locate SLASH DOT www)

/-- `InFolder` is decidable. -/
instance (www path : List Byte) : Decidable (InFolder www path) :=
  inferInstanceAs (Decidable (_ = _ ∧ _ = _ ∧ _ <:+ _))

/-- A folder whose path `resp_build` copies whole. -/
structure Folder (www : List Byte) : Prop where
  /-- The empty string names no folder. -/
  ne : www ≠ []
  /-- The path is a string. -/
  clean : 0 ∉ www
  /-- It fits. -/
  size : www.length ≤ REQ_URISZ

/-- The target of a request as `resp_build` copies it. -/
def Req.target (req : Req) : List Byte := strncpy0 (cstr req.uri) REQ_URISZ

/-- A target is cut at `REQ_URISZ`. -/
theorem Req.target_length (req : Req) : req.target.length ≤ REQ_URISZ :=
  (List.takeWhile_prefix _).length_le.trans (List.length_take_le _ _)

/-- A string that is not cut. -/
theorem strncpy0_eq {s : List Byte} {n : ℕ} (h0 : 0 ∉ s) (hn : s.length ≤ n) :
    strncpy0 s n = s := by
  rw [strncpy0, List.take_of_length_le hn, cstr, List.takeWhile_eq_self_iff.2]
  intro b hb
  have hne : b ≠ 0 := fun he => h0 (he ▸ hb)
  simpa using hne

/-- The first path is the folder with the target behind it. -/
theorem respPaths_eq {conf : Conf} (h : Folder conf.www) (req : Req) :
    respPaths req conf = (conf.www ++ req.target) :: defaultPages.map fun page =>
      (if (conf.www ++ req.target).getLast? = some SLASH then conf.www ++ req.target
        else conf.www ++ req.target ++ [SLASH]) ++ page := by
  have hwww := strncpy0_eq h.clean h.size
  unfold respPaths Req.target
  rw [hwww]
  rfl

/-- The default pages are names. -/
theorem defaultPages_stay : ∀ page ∈ defaultPages, Paths.Stays 0 (Paths.parts SLASH DOT page) :=
  by decide +kernel

/-- The paths that are tried lie in the folder, whatever the folder is, if and only if the target is
empty, or begins with a slash and has no part with more steps up than down. -/
theorem paths_confined (req : Req) :
    (∀ conf : Conf, Folder conf.www → ∀ path ∈ respPaths req conf, InFolder conf.www path) ↔
      Descends SLASH DOT req.target := by
  constructor
  · intro h
    by_contra hno
    -- A folder with a long name.
    let conf : Conf := ⟨0, 0, List.replicate req.target.length 118, 0, 1, [], fun _ => []⟩
    have hne : req.target ≠ [] := fun he => hno (.inl he)
    have hfolder : Folder conf.www := by
      refine ⟨?_, ?_, ?_⟩
      · exact List.ne_nil_of_length_pos (by simpa [conf] using List.length_pos_of_ne_nil hne)
      · exact fun hmem => absurd (List.eq_of_mem_replicate hmem) (by decide)
      · simpa [conf] using req.target_length
    have hin :=
      h conf hfolder (conf.www ++ req.target)
        (by rw [respPaths_eq hfolder]; exact List.mem_cons_self)
    exact Paths.exists_not_under SLASH DOT (v := 118) (by decide) (by decide) hno hin
  · intro h conf hfolder path hpath
    have hin := Paths.under_of_stays SLASH DOT h hfolder.ne
    rw [respPaths_eq hfolder] at hpath
    rcases List.mem_cons.1 hpath with rfl | hpath
    · exact hin
    · obtain ⟨page, hpage, rfl⟩ := List.mem_map.1 hpath
      have hne : conf.www ++ req.target ≠ [] := fun he => hfolder.ne (List.append_eq_nil_iff.1 he).1
      unfold InFolder
      rw [Paths.locate_entry SLASH DOT hne]
      exact hin.walk (defaultPages_stay page hpage)

/-- What `resp_build` takes of an accepted target, with the array `uri` as it was before: the part
in front of the first question mark, of the first `REQ_URISZ` bytes of the target. -/
def Req.pathOf (r : Req) (target : List Byte) : List Byte :=
  strncpy0 ((r.heldTarget (strncpy0 target REQ_URISZ)).takeWhile (· != 63)) REQ_URISZ

/-- For a target that is not literally `http://` or `https://`, the array does not matter. -/
theorem Req.pathOf_eq {target : List Byte} (h0 : 0 ∉ target)
    (hscheme : schemeEnd (target.take REQ_URISZ) = none) (r : Req) :
    r.pathOf target = (target.take REQ_URISZ).takeWhile (· != 63) := by
  rw [pathOf, strncpy0_eq_take h0, heldTarget, hscheme]
  dsimp only
  refine strncpy0_eq (fun h => h0 (List.mem_of_mem_take ((List.takeWhile_prefix _).subset h))) ?_
  exact (List.takeWhile_prefix _).length_le.trans (List.length_take_le _ _)

/-- What `uri` holds behind a request line. -/
theorem begun_uri (r : Req) (m : Method) (l : List Byte) : cstr (r.begun m l).uri =
    (r.heldTarget (strncpy0 ((Words.words isspace l).getD 1 []) REQ_URISZ)).takeWhile
      (· != 63) := by
  have hclean : 0 ∉ strncpy0 ((Words.words isspace l).getD 1 []) REQ_URISZ := cstr_clean _
  unfold Req.begun Req.named
  dsimp only
  generalize strncpy0 ((Words.words isspace l).getD 1 []) REQ_URISZ = target at hclean ⊢
  rw [Req.split_uri, Req.absolute_uri (r := { r with method := m }) hclean]
  rfl

/-- The header lines leave it alone. -/
theorem foldl_uri (r : Req) (ls : List (List Byte)) : (ls.foldl Req.addField r).uri = r.uri := by
  induction ls generalizing r with
  | nil => rfl
  | cons l ls ih => exact (ih _).trans (addField_keeps r l).1

/-- Behind an accepted head, that is the target as `resp_build` copies it. -/
theorem accepted_target {r : Req} {chunks : List (Byte × List Byte)}
    (hchunks : ∀ chunk ∈ chunks, chunk.2.getLast? = some LF) (hr : r.phase = .start)
    (hs : (parseChunks r chunks).1 = none) (hb : (parseChunks r chunks).2.phase = .body) :
    (parseChunks r chunks).2.target = r.pathOf (targetOf (chunks.flatMap Prod.snd)) := by
  obtain ⟨⟨m, -, hout⟩, -⟩ := parseChunks_accepted hchunks hr hs hb
  have huri : (parseChunks r chunks).2.uri =
      (r.begun m (startLine (chunks.flatMap Prod.snd))).uri := by
    rw [hout]
    exact foldl_uri _ _
  rw [Req.target, huri, begun_uri, Req.pathOf, targetOf]

/-- The paths that are tried for an accepted head lie in the folder, whatever the folder is, if and
only if what is taken of its target is empty, or begins with a slash and has no part with more steps
up than down. -/
theorem confined_iff (r : Req) (chunks : List (Byte × List Byte))
    (hchunks : ∀ chunk ∈ chunks, chunk.2.getLast? = some LF) (hr : r.phase = .start)
    (hs : (parseChunks r chunks).1 = none) (hb : (parseChunks r chunks).2.phase = .body) :
    (∀ conf : Conf, Folder conf.www → ∀ path ∈ respPaths (parseChunks r chunks).2 conf,
        InFolder conf.www path) ↔
      Descends SLASH DOT (r.pathOf (targetOf (chunks.flatMap Prod.snd))) := by
  rw [paths_confined, accepted_target hchunks hr hs hb]

/-- Behind a question mark, steps up lead nowhere. -/
theorem confined_query :
    (∀ conf : Conf, Folder conf.www →
        ∀ path ∈ respPaths (parseChunks (reqNew [])
          [(0, str "GET /a?/../.. HTTP/1.1\r\n"), (LF, str "\r\n")]).2 conf,
        InFolder conf.www path) ↔
      Descends SLASH DOT (str "/a") :=
  confined_iff (reqNew []) [(0, str "GET /a?/../.. HTTP/1.1\r\n"), (LF, str "\r\n")]
    (by decide +kernel) rfl (by decide +kernel) (by decide +kernel)

/-- The target `/../x` is accepted, and leads out of the folder `www`. -/
theorem target_escapes : ¬ ∀ (before : Byte) (mem lines : List Byte) (conf : Conf),
    0 ≤ (reqParse before (reqNew mem) lines).1 → Folder conf.www →
    ∀ path ∈ respPaths (reqParse before (reqNew mem) lines).2 conf, InFolder conf.www path := by
  intro h
  have hin := h 0 [] (str "GET /../x HTTP/1.1\r\n\r\n") ⟨80, 443, str "www", 3, 4, [], fun _ => []⟩
    (by decide +kernel) ⟨by decide +kernel, by decide +kernel, by decide +kernel⟩ (str "www/../x")
      (by decide +kernel)
  exact absurd hin (by decide +kernel)

end Liso
