import Liso.Head
import Liso.Confine
import Liso.Parse.StartLine

/-!
# Finding the file of a request

A file tree says what each path leads to, and `FileTree.fs` answers the system calls from it.
`resp_build` should respond with the first readable file among three paths, whatever its size
(`Answers`). It takes a mapping that fails for a file that is not there, and returns the size of the
file as a `bool`, so an empty file and a file whose size is a multiple of `2^32` are not found.
`resolved_iff` says that nothing else goes wrong, except that a folder with a very long name is cut.
-/

namespace Liso

open Handles (Table Picker)

/-! ## File trees -/

/-- What a path leads to. -/
inductive Node
  /-- A directory. -/
  | dir (mtime : ℤ)
  /-- A regular file. -/
  | file (bytes : List Byte) (readable : Bool) (mtime : ℤ)
  /-- Something else, which has no size. -/
  | special (readable : Bool) (mtime : ℤ)

/-- A file tree, as a lookup of paths. -/
abbrev FileTree := List Byte → Option Node

/-- What `stat` reports. -/
def Node.stat : Node → Stat
  | .dir mtime => ⟨true, 0, mtime⟩
  | .file bytes _ mtime => ⟨false, bytes.length, mtime⟩
  | .special _ mtime => ⟨false, 0, mtime⟩

/-- Whether `open` succeeds. -/
def Node.opens : Node → Bool
  | .dir _ => true
  | .file _ readable _ => readable
  | .special readable _ => readable

/-- The bytes that `mmap` maps: it fails exactly for length 0. -/
def Node.mmap : Node → Option (List Byte)
  | .file bytes _ _ => if bytes = [] then none else some bytes
  | _ => none

/-- The system calls on a file tree. -/
def FileTree.fs (t : FileTree) : Fs where
  stat path := (t path).map Node.stat
  opens path := (t path).any Node.opens
  mmap path := (t path).bind Node.mmap

/-- The bytes of a readable regular file. -/
def FileTree.regular (t : FileTree) (path : List Byte) : Option (List Byte) :=
  match t path with
  | some (.file bytes true _) => some bytes
  | _ => none

/-- The bytes of a readable regular file that is not empty. -/
def FileTree.filled (t : FileTree) (path : List Byte) : Option (List Byte) :=
  (t.regular path).filter (· ≠ [])

/-- The paths that should be tried: the folder followed by the target, and then the index pages in
it, with no doubled slash. -/
def candidates (www uri : List Byte) : List (List Byte) :=
  let p := www ++ uri
  let dir := if p.getLast? = some 47 then p else p ++ [47]
  [p, dir ++ str "index.html", dir ++ str "index.htm"]

/-- The outcome of `resp_build` is the response with the file that was found, or the failure with
404. -/
def Answers (out : ℕ × Resp × Table) (found : Option (List Byte)) : Prop :=
  match found with
  | some bytes =>
    out.1 ≠ 0 ∧ out.2.1.status = 200 ∧ out.2.1.clen = bytes.length ∧
      out.2.1.mmbuf.elim [] Buf.rest = bytes
  | none => out.1 = 0 ∧ out.2.1.status = 404

/-- `Answers` is decidable. -/
instance (out : ℕ × Resp × Table) (found : Option (List Byte)) : Decidable (Answers out found) := by
  unfold Answers
  cases found <;> infer_instance

variable {t : FileTree} {paths : List (List Byte)} {path bytes : List Byte}

/-- `resp_mmap` succeeds on a path if and only if it leads to a readable regular file that is not
empty. -/
theorem mappable_eq (t : FileTree) (path : List Byte) :
    t.fs.mappable path = (t.filled path).isSome := by
  unfold Fs.mappable Fs.openable FileTree.fs FileTree.filled FileTree.regular
  dsimp only
  rcases t path with _ | (mtime | ⟨bytes, readable, mtime⟩ | ⟨readable, mtime⟩)
  · rfl
  · rfl
  · cases readable with
    | false => simp [Node.stat, Node.opens]
    | true => by_cases hb : bytes = [] <;> simp [Node.stat, Node.opens, Node.mmap, hb]
  · cases readable <;> simp [Node.stat, Node.opens, Node.mmap]

/-- A path that names a file that is not empty has its size and its bytes. -/
theorem fs_filled (h : t.filled path = some bytes) :
    (∀ st, t.fs.stat path = some st → st.size = bytes.length) ∧ t.fs.mmap path = some bytes ∧
      bytes ≠ [] := by
  unfold FileTree.filled FileTree.regular at h
  unfold FileTree.fs
  dsimp only
  rcases hn : t path with _ | (mtime | ⟨bytes', readable, mtime⟩ | ⟨readable, mtime⟩)
    <;> rw [hn] at h
  · simp at h
  · simp at h
  · cases readable with
    | false => simp at h
    | true =>
      obtain ⟨rfl, hne⟩ : bytes' = bytes ∧ bytes ≠ [] := by
        rw [Option.filter_eq_some_iff] at h
        simpa using h
      exact ⟨by simp [Node.stat], by simp [Node.mmap, hne], hne⟩
  · simp at h

/-- The first path with a value. -/
theorem findSome?_eq {α β : Type*} (f : α → Option β) (xs : List α) :
    xs.findSome? f = (xs.find? fun x => (f x).isSome).bind f := by
  induction xs with
  | nil => rfl
  | cons x xs ih =>
    cases hx : f x with
    | none => rw [List.findSome?_cons, List.find?_cons_of_neg (by simp [hx]), hx, ih]
    | some y => rw [List.findSome?_cons, List.find?_cons_of_pos (by simp [hx]),
      hx, Option.bind_some, hx]

/-- `resp_build` responds with the first readable regular file that is not empty. -/
theorem respBuild_tree (t : FileTree) (pick : Picker) (resp : Resp) (req : Req) (conf : Conf)
    (fds : Table) :
    match (respPaths req conf).findSome? t.filled with
    | some bytes => (respBuild t.fs pick (respReset resp) req conf fds).1 = bytes.length % 2 ^ 32 ∧
        (respBuild t.fs pick (respReset resp) req conf fds).2.1.status = 200 ∧
        (respBuild t.fs pick (respReset resp) req conf fds).2.1.clen = bytes.length ∧
        (respBuild t.fs pick (respReset resp) req conf fds).2.1.mmbuf = some ⟨bytes, 0, false⟩
    | none => (respBuild t.fs pick (respReset resp) req conf fds).1 = 0 ∧
        (respBuild t.fs pick (respReset resp) req conf fds).2.1.status = 404 := by
  have htry := respTry_eq t.fs pick { respReset resp with alive := req.alive }
    (respPaths req conf) fds
  have hpred : t.fs.mappable = fun path => (t.filled path).isSome :=
    funext fun path => mappable_eq t path
  rw [findSome?_eq, ← hpred]
  unfold respBuild
  dsimp only
  rcases hout : respTry t.fs pick { respReset resp with alive := req.alive } (respPaths req conf)
    fds with ⟨found, resp', fds'⟩
  rw [hout] at htry
  rcases htry with ⟨path, st, file, hfind, hst, hmap, hfound, hresp'⟩ | ⟨hfind, hfound, m, hresp'⟩
  · -- The path that `resp_mmap` takes is the first one with a filled file.
    obtain ⟨bytes, hbytes⟩ : ∃ bytes, t.filled path = some bytes := by
      have hsome := List.find?_some hfind
      rw [mappable_eq] at hsome
      exact Option.isSome_iff_exists.1 hsome
    obtain ⟨hsize, hfile, -⟩ := fs_filled hbytes
    have hsize := hsize st hst
    have hfile : file = bytes := Option.some.inj (hmap.symm.trans hfile)
    have hfound : found = some (st, path) := hfound
    have hresp' : resp' = { respReset resp with
        alive := req.alive, mmbuf := some ⟨List.takeD st.size file 0, 0, false⟩ } := hresp'
    rw [hfind, Option.bind_some, hbytes]
    subst hfound hresp' hfile
    dsimp only
    rw [hsize, List.takeD_eq_take _ le_rfl, List.take_length]
    split_ifs <;> exact ⟨rfl, rfl, rfl, rfl⟩
  · rw [hfind, Option.bind_none]
    have hfound : found = none := hfound
    subst hfound
    exact ⟨rfl, rfl⟩

/-! ## The right file -/

/-- `resp_build` responds with the first path that names a file that is not empty, if the size of
the file is not zero in 32 bits. -/
theorem answers_iff (t : FileTree) (pick : Picker) (resp : Resp) (req : Req) (conf : Conf)
    (fds : Table) (found : Option (List Byte)) :
    Answers (respBuild t.fs pick (respReset resp) req conf fds) found ↔
      (respPaths req conf).findSome? t.filled = found ∧ ∀ bytes ∈ found,
        bytes.length % 2 ^ 32 ≠ 0 := by
  have hbuild := respBuild_tree t pick resp req conf fds
  generalize respBuild t.fs pick (respReset resp) req conf fds = out at hbuild ⊢
  unfold Answers
  cases hpaths : (respPaths req conf).findSome? t.filled with
  | none =>
    rw [hpaths] at hbuild
    cases found with
    | none => simpa using hbuild
    | some bytes => simp [hbuild.1]
  | some file =>
    rw [hpaths] at hbuild
    obtain ⟨hrc, hstatus, hclen, hbody⟩ := hbuild
    cases found with
    | none => simp [hstatus]
    | some bytes =>
      dsimp only
      rw [hrc, hstatus, hclen, hbody, Option.some.injEq]
      constructor
      · rintro ⟨hsize, -, -, he⟩
        have he : file = bytes := he
        exact ⟨he, by simpa [← he] using hsize⟩
      · rintro ⟨rfl, hsize⟩
        exact ⟨hsize file rfl, rfl, rfl, rfl⟩

/-- A first file that is not empty is the first one of those. -/
theorem findSome?_filled (h : paths.findSome? t.regular ≠ some []) :
    paths.findSome? t.filled = paths.findSome? t.regular := by
  induction paths with
  | nil => rfl
  | cons path paths ih =>
    rw [List.findSome?_cons] at h
    rw [List.findSome?_cons, List.findSome?_cons]
    have hone : t.filled path = (t.regular path).filter (· ≠ []) := rfl
    cases hp : t.regular path with
    | none =>
      rw [hp] at h hone
      rw [hone]
      exact ih h
    | some bytes =>
      rw [hp] at h hone
      have hne : bytes ≠ [] := fun he => h (congrArg some he)
      rw [hone, Option.filter_some, if_pos (by simpa using hne)]

/-- The request is answered with the file that its target stands for if and only if the size of that
file is no multiple of `2^32`, and the cut of the folder and of the target leads to no other
file. -/
theorem resolved_iff (t : FileTree) (pick : Picker) (resp : Resp) (req : Req) (conf : Conf)
    (fds : Table) :
    Answers (respBuild t.fs pick (respReset resp) req conf fds)
        ((candidates conf.www (cstr req.uri)).findSome? t.regular) ↔
      (∀ bytes ∈ (candidates conf.www (cstr req.uri)).findSome? t.regular,
        bytes.length % 2 ^ 32 ≠ 0) ∧
        (candidates (strncpy0 conf.www REQ_URISZ) (strncpy0 (cstr req.uri) REQ_URISZ)).findSome?
          t.filled =
          (candidates conf.www (cstr req.uri)).findSome? t.filled := by
  have hpaths : respPaths req conf = candidates (strncpy0 conf.www REQ_URISZ)
    (strncpy0 (cstr req.uri) REQ_URISZ) := rfl
  rw [answers_iff, hpaths, and_comm]
  refine and_congr_right fun hsize => ?_
  have hfilled : (candidates conf.www (cstr req.uri)).findSome? t.filled =
      (candidates conf.www (cstr req.uri)).findSome? t.regular :=
        findSome?_filled fun he => hsize [] he rfl
  rw [hfilled]

/-- A folder and a target that fit are not cut. -/
theorem candidates_fit {conf : Conf} {req : Req} (hwww : Folder conf.www)
    (huri : (cstr req.uri).length ≤ REQ_URISZ) :
    candidates (strncpy0 conf.www REQ_URISZ) (strncpy0 (cstr req.uri) REQ_URISZ) =
      candidates conf.www (cstr req.uri) := by
  rw [strncpy0_eq hwww.clean hwww.size, strncpy0_eq (cstr_clean _) huri]

/-- A tree with an empty file. -/
def emptyFile : FileTree := fun path => if path = str "www/a" then some (.file [] true 0) else none

/-- An empty file is not found. -/
theorem empty_lost :
    ¬ ∀ (t : FileTree) (pick : Picker) (resp : Resp) (conf : Conf) (fds : Table) (before : Byte)
    (mem lines : List Byte), Folder conf.www → 0 ≤ (reqParse before (reqNew mem) lines).1 →
    (reqParse before (reqNew mem) lines).2.phase = .body →
      (reqParse before (reqNew mem) lines).2.type = .static →
    Answers (respBuild t.fs pick (respReset resp) (reqParse before (reqNew mem) lines).2 conf fds)
      ((candidates conf.www (cstr (reqParse before (reqNew mem) lines).2.uri)).findSome?
        t.regular) := by
  intro h
  have hanswer :=
    h emptyFile .lowest respNew ⟨80, 443, str "www", 3, 4, [], fun _ => []⟩ ⟨[], 0⟩ 0 []
    (str "GET /a HTTP/1.1\r\n\r\n") ⟨by decide +kernel, by decide +kernel, by decide +kernel⟩
      (by decide +kernel)
    (by decide +kernel) (by decide +kernel)
  exact absurd hanswer (by decide +kernel)

end Liso
