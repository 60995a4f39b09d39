import Liso.Response
import Liso.Parse.Accepted

/-!
# The environment of the CGI (`cgi.c`)

`envp_new` fills an array with the strings of the environment: those that the server sets, one for
each header, and a null pointer behind them. Every string goes through the buffer `data`, and a
header's key through the buffer `key`. `Envp` keeps the stores into the array with their indices,
and `envpNew_stores` says what they are.

The arrays are smaller than what can go into them. `envp_bounds` says when the null pointer is still
inside the array, `convertKey_bounds` the same for a key and its terminator, `environment_full` when
each header is there in full, and `names_kept` when no header takes the name of a variable of the
server.
-/

namespace Liso

/-! ## The array -/

/-- `PREFIX`. -/
def PREFIX : List Byte := str "/cgi"

/-- `ENVP_CNT`. -/
def ENVP_CNT : ℕ := 64

/-- `ENVSZ`. -/
def ENVSZ : ℕ := 2048

/-- `str_new`. -/
def strNew (src : List Byte) (sz : ℕ) : List Byte := strncpy0 src sz

/-- The array `envp` while it is filled. -/
structure Envp where
  /-- `cnt`. -/
  cnt : ℕ
  /-- The stores into the array, oldest first: the index, and the string that is pointed to, or
  `none` for the null pointer. -/
  stores : List (ℕ × Option (List Byte))
  /-- A mark: `convert_key` stored something behind the end of the array `key`. What the C program
  does then is undefined; the model goes on as if `key` were long enough. -/
  overrun : Bool
  deriving DecidableEq

/-- `add_entry` and `add_entry_kv`, where the format prints `text`: `snprintf` cuts it for the
buffer `data`, and returns the length that it has uncut. -/
def Envp.add (e : Envp) (text : List Byte) : Envp :=
  { e with cnt := e.cnt + 1,
           stores := e.stores ++ [(e.cnt, some (strNew (text.take (ENVSZ - 1)) text.length))] }

/-- The character that `convert_key` makes of another. -/
def convertChar (c : Byte) : Byte :=
  if 97 ≤ c && c ≤ 122 then c - 97 + 65
  else if c == 45 then 95
  else c

/-- The loop of `convert_key` after `i` passes, and the terminator. -/
def convertLoop : ℕ → List Byte → List Byte
  | i, c :: src => if c ≠ 0 ∧ i < HDR_KEYSZ then convertChar c :: convertLoop (i + 1) src else [0]
  | _, [] => [0]

/-- `convert_key`: the bytes that it stores, from the start of the array on. -/
def convertKey (src : List Byte) : List Byte := str "HTTP_" ++ convertLoop 0 src

/-- What `envp_new` prints for the server, in order. -/
def envpTexts (req : Req) : List (List Byte) :=
  [str "GATEWAY_INTERFACE=" ++ str "CGI/1.1",
    str "PATH_INFO=" ++ cstr (req.uri.drop PREFIX.length),
    str "REQUEST_URI=" ++ cstr req.uri,
    str "REQUEST_METHOD=" ++ reqMethod req] ++
  -- Three of the strings depend on the request.
  (match req.params with
    | some k => [str "QUERY_STRING=" ++ cstr (req.uri.drop k)]
    | none => []) ++
  (if 0 < req.clen then [str "CONTENT_LENGTH=" ++ dec req.clen] else []) ++
  [str "HTTP_CONNECTION=" ++ (if req.alive then str "Keep-alive" else str "Close"),
    str "REMOTE_ADDR=" ++ req.addr,
    str "SERVER_PORT=" ++ dec req.port,
    str "SERVER_NAME=" ++ VERSION,
    str "SERVER_SOFTWARE=" ++ VERSION,
    str "SERVER_PROTOCOL=" ++ str "HTTP/1.1",
    str "HTTP_HOST=" ++ req.host,
    str "SCRIPT_NAME=" ++ PREFIX] ++
  (if req.scheme = .https then [str "HTTPS=" ++ str "on"] else [])

/-- `envp_new` up to its loop. -/
def envpServer (req : Req) : Envp := (envpTexts req).foldl Envp.add ⟨0, [], false⟩

/-- One pass of the loop of `envp_new`. -/
def Envp.addHdr (e : Envp) (hdr : Hdr) : Envp :=
  if strcaseeq hdr.key (str "Content-Type") then e.add (str "CONTENT_TYPE=" ++ hdr.val)
  else
    -- The array `key` has `HDR_KEYSZ + 5` bytes.
    let key := convertKey hdr.key
    { e.add (cstr key ++ str "=" ++ hdr.val) with
      overrun := e.overrun || decide (HDR_KEYSZ + 5 < key.length) }

/-- The loop of `envp_new`. -/
def envpHdrs : Envp → List Hdr → Envp
  | e, [] => e
  | e, hdr :: hdrs => if e.cnt < ENVP_CNT then envpHdrs (e.addHdr hdr) hdrs else e

/-- `envp_new`. -/
def envpNew (req : Req) : Envp :=
  let e := envpHdrs (envpServer req) req.hdrs
  -- The null pointer behind the last string, without a look at the size.
  { e with stores := e.stores ++ [(e.cnt, none)] }

/-! ## The stores -/

/-- The strings that the array points to. -/
def Envp.entries (e : Envp) : List (List Byte) := e.stores.filterMap Prod.snd

/-- The strings that `envp_new` made of headers. -/
def clientEntries (req : Req) : List (List Byte) := (envpNew req).entries.drop (envpServer req).cnt

/-- The stores that put strings into the array one after the other. -/
def storesOf (es : List (List Byte)) : List (ℕ × Option (List Byte)) :=
  es.zipIdx.map fun p => (p.2, some p.1)

/-- A string as it comes out of the buffer `data`. -/
def cutEntry (text : List Byte) : List Byte := strNew (text.take (ENVSZ - 1)) text.length

/-- What `envp_new` prints for a header. -/
def hdrText (hdr : Hdr) : List Byte :=
  if strcaseeq hdr.key (str "Content-Type") then str "CONTENT_TYPE=" ++ hdr.val
  else cstr (convertKey hdr.key) ++ str "=" ++ hdr.val

/-- The number of strings that the server sets. -/
def serverCount (req : Req) : ℕ :=
  12 + (if req.params.isSome then 1 else 0) + (if 0 < req.clen then 1 else 0) +
    (if req.scheme = .https then 1 else 0)

variable {e : Envp} {req : Req} {es : List (List Byte)} {h : Hdr}

/-- One more entry is one more store. -/
theorem storesOf_concat (es : List (List Byte)) (s : List Byte) :
    storesOf (es ++ [s]) = storesOf es ++ [(es.length, some s)] := by
  simp [storesOf, List.zipIdx_append]

/-- The entries are what the stores have stored. -/
theorem filterMap_storesOf (es : List (List Byte)) : (storesOf es).filterMap Prod.snd = es := by
  induction es using List.reverseRecOn with
  | nil => rfl
  | append_singleton es s ih => rw [storesOf_concat, List.filterMap_append, ih]; rfl

/-- Every store is to one of the first places. -/
theorem mem_storesOf {p : ℕ × Option (List Byte)} (hp : p ∈ storesOf es) : p.1 < es.length := by
  obtain ⟨q, hq, rfl⟩ := List.mem_map.1 hp
  obtain ⟨-, hlt, -⟩ := List.mem_zipIdx hq
  simpa using hlt

/-- The array holds the strings `es`, in its first places. -/
def Envp.Filled (e : Envp) (es : List (List Byte)) : Prop :=
  e.stores = storesOf es ∧ e.cnt = es.length

/-- `envp_add` fills the next place. -/
theorem Envp.Filled.add (h : e.Filled es) (text : List Byte) :
    (e.add text).Filled (es ++ [cutEntry text]) := by
  obtain ⟨hstores, hcnt⟩ := h
  constructor
  · rw [storesOf_concat, ← hstores, ← hcnt]
    rfl
  · rw [List.length_append, ← hcnt]
    rfl

/-- `envp_add_hdr` fills it with the text of a header. -/
theorem Envp.Filled.addHdr (h : e.Filled es) (hdr : Hdr) :
    (e.addHdr hdr).Filled (es ++ [cutEntry (hdrText hdr)]) := by
  unfold Envp.addHdr hdrText
  split
  · exact h.add _
  · exact h.add _

/-- The strings of the server fill the first places. -/
theorem envpServer_filled (req : Req) : (envpServer req).Filled ((envpTexts req).map cutEntry) := by
  have hfold : ∀ (texts : List (List Byte)) (e : Envp) (es : List (List Byte)), e.Filled es →
      (texts.foldl Envp.add e).Filled (es ++ texts.map cutEntry) := by
    intro texts
    induction texts with
    | nil =>
      intro e es h
      rwa [List.map_nil, List.append_nil]
    | cons text texts ih =>
      intro e es h
      rw [List.map_cons, List.append_cons]
      exact ih _ _ (h.add text)
  exact hfold (envpTexts req) ⟨0, [], false⟩ [] ⟨rfl, rfl⟩

/-- The loop adds the strings of the headers that there is room for. -/
theorem envpHdrs_filled (h : e.Filled es) (hdrs : List Hdr) :
    (envpHdrs e hdrs).Filled
      (es ++ (hdrs.take (ENVP_CNT - es.length)).map fun hdr => cutEntry (hdrText hdr)) := by
  induction hdrs generalizing e es with
  | nil => simpa [envpHdrs] using h
  | cons hdr hdrs ih =>
    unfold envpHdrs
    rw [h.2]
    split
    · rename_i hlt
      have ih := ih (h.addHdr hdr)
      obtain ⟨n, hn⟩ : ∃ n, ENVP_CNT - es.length = n + 1 := ⟨ENVP_CNT - es.length - 1, by omega⟩
      rw [List.length_append, List.length_singleton, ← Nat.sub_sub, hn, Nat.add_sub_cancel] at ih
      rw [hn, List.take_succ_cons, List.map_cons, List.append_cons]
      exact ih
    · rename_i hge
      rw [Nat.sub_eq_zero_of_le (not_lt.1 hge), List.take_zero, List.map_nil, List.append_nil]
      exact h

/-- The number of the server's own entries. -/
theorem envpTexts_length (req : Req) : (envpTexts req).length = serverCount req := by
  unfold envpTexts serverCount
  cases req.params <;> by_cases hc : 0 < req.clen <;> by_cases hs :
    req.scheme = .https <;> simp [hc, hs]

/-- The strings that `envp_new` makes. -/
def envpEntries (req : Req) : List (List Byte) :=
  (envpTexts req).map cutEntry ++ (req.hdrs.take (ENVP_CNT - serverCount req)).map fun hdr =>
    cutEntry (hdrText hdr)

/-- The stores of `envp_new`: the strings one after the other, and a null pointer. -/
theorem envpNew_stores (req : Req) :
    (envpNew req).stores = storesOf (envpEntries req) ++ [((envpEntries req).length, none)] := by
  obtain ⟨hstores, hcnt⟩ := envpHdrs_filled (envpServer_filled req) req.hdrs
  rw [List.length_map, envpTexts_length] at hstores hcnt
  show (envpHdrs _ _).stores ++ [((envpHdrs _ _).cnt, none)] = _
  rw [hstores, hcnt]
  rfl

/-- `envp_new` makes the server's entries, and those of the headers as long as there are places. -/
theorem envpNew_entries (req : Req) : (envpNew req).entries = envpEntries req := by
  rw [Envp.entries, envpNew_stores, List.filterMap_append, filterMap_storesOf]
  exact List.append_nil _

/-- The strings made of headers are those of the first headers, as long as there are places. -/
theorem clientEntries_eq (req : Req) :
    clientEntries req = (req.hdrs.take (ENVP_CNT - serverCount req)).map fun hdr =>
      cutEntry (hdrText hdr) := by
  have hcnt := (envpServer_filled req).2
  rw [clientEntries, envpNew_entries, envpEntries, hcnt, List.drop_left]

/-! ## The places of the array -/

/-- What the array holds at an index: what was stored there last, if anything was. -/
def Envp.read (e : Envp) (i : ℕ) : Option (Option (List Byte)) :=
  e.stores.foldl (fun found p => if p.1 = i then some p.2 else found) none

/-- The stores go into the array, and a walk over it, as `envp_free` and `execve` make it, meets
strings up to a null pointer. -/
structure Envp.Bounded (e : Envp) : Prop where
  /-- The indices. -/
  inside : ∀ p ∈ e.stores, p.1 < ENVP_CNT
  /-- The walk. -/
  walk : ∃ n < ENVP_CNT, (∀ i < n, ∃ s, e.read i = some (some s)) ∧ e.read n = some none

/-- The array when the last store is the null pointer behind the strings. -/
theorem read_stores (he : e.stores = storesOf es ++ [(es.length, none)]) :
    (∀ i < es.length, ∃ s, e.read i = some (some s)) ∧ e.read es.length = some none := by
  have hread : ∀ i, e.read i = if es.length = i then some none
      else (storesOf es).foldl (fun found p => if p.1 = i then some p.2 else found) none := by
    intro i
    rw [Envp.read, he, List.foldl_append]
    rfl
  refine ⟨fun i hi => ?_, by rw [hread, if_pos rfl]⟩
  rw [hread, if_neg hi.ne']
  clear he hread
  induction es using List.reverseRecOn with
  | nil => exact absurd hi (by simp)
  | append_singleton es s ih =>
    rw [storesOf_concat, List.foldl_append, List.foldl_cons, List.foldl_nil]
    rw [List.length_append, List.length_singleton] at hi
    by_cases hlast : es.length = i
    · exact ⟨s, by rw [if_pos hlast]⟩
    · obtain ⟨s', hs'⟩ := ih (by omega)
      exact ⟨s', by rw [if_neg hlast, hs']⟩

/-- The server has 15 entries of its own at most. -/
theorem serverCount_le (req : Req) : serverCount req ≤ 15 := by
  unfold serverCount
  split_ifs <;> omega

/-- The number of all entries. -/
theorem envpEntries_length (req : Req) :
    (envpEntries req).length = serverCount req + min (ENVP_CNT - serverCount req)
      req.hdrs.length := by
  rw [envpEntries, List.length_append, List.length_map, List.length_map,
    List.length_take, envpTexts_length]

/-- The null pointer is stored last, at the largest index. -/
theorem inside_iff (req : Req) :
    (∀ p ∈ (envpNew req).stores, p.1 < ENVP_CNT) ↔
      serverCount req + req.hdrs.length < ENVP_CNT := by
  have hle := serverCount_le req
  have hcount : (envpEntries req).length < ENVP_CNT ↔
    serverCount req + req.hdrs.length < ENVP_CNT := by
    rw [envpEntries_length]
    unfold ENVP_CNT
    omega
  rw [← hcount, envpNew_stores]
  constructor
  · exact fun h => h ((envpEntries req).length, none) (by simp)
  · intro h p hp
    rw [List.mem_append, List.mem_singleton] at hp
    rcases hp with hp | rfl
    · exact (mem_storesOf hp).trans h
    · exact h

/-- The array of the environment is large enough if and only if there are fewer than `ENVP_CNT`
strings. -/
theorem envp_bounds (req : Req) :
    (envpNew req).Bounded ↔ serverCount req + req.hdrs.length < ENVP_CNT := by
  rw [← inside_iff]
  constructor
  · exact fun h => h.inside
  · intro h
    have hlen := h ((envpEntries req).length, none) (by rw [envpNew_stores]; simp)
    exact ⟨h, _, hlen, read_stores (envpNew_stores req)⟩

/-- A head with 52 short headers. -/
def manyHeaders : List Byte :=
  str "GET /cgi/ HTTP/1.1\r\n" ++ (List.replicate 52 (str "a:\r\n")).flatten ++
    str "\r\n"

/-- The null pointer is stored behind the array. -/
theorem envp_unbounded : ¬ ∀ (before : Byte) (mem lines : List Byte), lines.length ≤ BUFSZ →
    0 ≤ (reqParse before (reqNew mem) lines).1 →
      (reqParse before (reqNew mem) lines).2.phase = .body →
    (reqParse before (reqNew mem) lines).2.type = .dynamic →
      (envpNew (reqParse before (reqNew mem) lines).2).Bounded := by
  intro h
  have haccepted : manyHeaders.length ≤ BUFSZ ∧ 0 ≤ (reqParse 0 (reqNew []) manyHeaders).1 ∧
      (reqParse 0 (reqNew []) manyHeaders).2.phase = .body ∧
        (reqParse 0 (reqNew []) manyHeaders).2.type = .dynamic ∧
      (64, none) ∈ (envpNew (reqParse 0 (reqNew []) manyHeaders).2).stores := by decide +kernel
  obtain ⟨hfits, hrc, hb, hd, hstore⟩ := haccepted
  have hin := (h 0 [] manyHeaders hfits hrc hb hd).inside (64, none) hstore
  exact absurd hin (by decide)

/-! ## The keys -/

/-- `toupper` in the C locale. -/
def toupper (c : Byte) : Byte := if 97 ≤ c && c ≤ 122 then c - 32 else c

/-- A character of a name in the environment: in upper case, and `_` for `-`. -/
def envChar (c : Byte) : Byte := if c = 45 then 95 else toupper c

/-- `convert_char` is the function of the specification, and no byte but NUL becomes NUL. -/
theorem convertChar_eq (c : Byte) : convertChar c = envChar c ∧ (envChar c = 0 → c = 0) := by
  revert c
  decide +kernel

/-- The loop on a key that fits. -/
theorem convertLoop_eq {key : List Byte} (h0 : 0 ∉ key) {i : ℕ} (hi : i + key.length ≤ HDR_KEYSZ) :
    convertLoop i key = key.map envChar ++ [0] := by
  induction key generalizing i with
  | nil => rfl
  | cons c key ih =>
    rw [List.mem_cons, not_or] at h0
    rw [List.length_cons] at hi
    rw [convertLoop, if_pos ⟨Ne.symm h0.1, by omega⟩, ih h0.2 (by omega), (convertChar_eq c).1]
    rfl

/-- `convert_key` on a key that fits. -/
theorem convertKey_eq {key : List Byte} (h0 : 0 ∉ key) (hlen : key.length ≤ HDR_KEYSZ) :
    (convertKey key).length = key.length + 6 ∧ cstr (convertKey key) = str "HTTP_" ++
      key.map envChar := by
  have hkey : convertKey key = (str "HTTP_" ++ key.map envChar) ++ 0 :: [] := by
    rw [convertKey, convertLoop_eq h0 (by omega), List.append_assoc]
  constructor
  · have h5 : (str "HTTP_").length = 5 := by simp [str]
    rw [hkey, List.length_append, List.length_append, List.length_map, h5, List.length_singleton]
    omega
  · rw [hkey, cstr_append_zero]
    rw [List.mem_append, not_or]
    constructor
    · decide +kernel
    · intro h
      obtain ⟨c, hc, hz⟩ := List.mem_map.1 h
      exact h0 ((convertChar_eq c).2 hz ▸ hc)

/-- A key that a header can hold is converted, but for its terminator when it is as long as a key
can be. -/
theorem convertKey_bounds (key : List Byte) (h0 : 0 ∉ key) (hlen : key.length ≤ HDR_KEYSZ) :
    ((convertKey key).length ≤ HDR_KEYSZ + 5 ∧
      cstr (convertKey key) = str "HTTP_" ++ key.map envChar) ↔
      key.length < HDR_KEYSZ := by
  obtain ⟨hsize, htext⟩ := convertKey_eq h0 hlen
  constructor
  · rintro ⟨hle, -⟩
    omega
  · intro hlt
    exact ⟨by omega, htext⟩

/-- A key of 15 bytes is converted within the array. -/
theorem convertKey_bounds_accept :
    ((convertKey (str "Accept-Language")).length ≤ HDR_KEYSZ + 5 ∧
        cstr (convertKey (str "Accept-Language")) = str "HTTP_" ++
          (str "Accept-Language").map envChar) ↔
      (str "Accept-Language").length < HDR_KEYSZ :=
  convertKey_bounds (str "Accept-Language") (by decide +kernel) (by decide +kernel)

/-- A head with a key of `HDR_KEYSZ` bytes. -/
def longKey : List Byte :=
  str "GET /cgi/ HTTP/1.1\r\n" ++ List.replicate HDR_KEYSZ 97 ++ str ":\r\n\r\n"

/-- The terminator of the longest key is stored behind the array. -/
theorem convertKey_unbounded : ¬ ∀ (before : Byte) (mem lines : List Byte), lines.length ≤ BUFSZ →
    0 ≤ (reqParse before (reqNew mem) lines).1 →
      (reqParse before (reqNew mem) lines).2.type = .dynamic →
    ∀ h ∈ (reqParse before (reqNew mem) lines).2.hdrs, (convertKey h.key).length ≤
      HDR_KEYSZ + 5 := by
  intro h
  have haccepted : longKey.length ≤ BUFSZ ∧ 0 ≤ (reqParse 0 (reqNew []) longKey).1 ∧
      (reqParse 0 (reqNew []) longKey).2.type = .dynamic ∧
      ⟨List.replicate HDR_KEYSZ 97, []⟩ ∈ (reqParse 0 (reqNew []) longKey).2.hdrs := by
        decide +kernel
  obtain ⟨hfits, hrc, hd, hmem⟩ := haccepted
  have hle := h 0 [] longKey hfits hrc hd _ hmem
  exact absurd hle (by decide +kernel)

/-! ## The strings in full -/

/-- The entry that shows a header to the CGI. -/
def Hdr.entry (h : Hdr) : List Byte :=
  (if strcaseeq h.key (str "Content-Type") then str "CONTENT_TYPE" else str "HTTP_" ++
    h.key.map envChar) ++ str "=" ++ h.val

/-- The strings of the request are in the environment of the CGI, and no store fell outside an array
on the way. -/
structure Sees (req : Req) : Prop where
  /-- `host`. -/
  host_inside : req.overrun = false
  /-- `key`. -/
  key_inside : (envpNew req).overrun = false
  /-- `envp`. -/
  envp_inside : ∀ p ∈ (envpNew req).stores, p.1 < ENVP_CNT
  /-- The target behind `/cgi`. -/
  path_info : str "PATH_INFO=" ++ (cstr req.uri).drop 4 ∈ (envpNew req).entries
  /-- The target. -/
  request_uri : str "REQUEST_URI=" ++ cstr req.uri ∈ (envpNew req).entries
  /-- The parameters, if there are any. -/
  query_string : ∀ k ∈ req.params, str "QUERY_STRING=" ++ cstr (req.uri.drop k) ∈
    (envpNew req).entries
  /-- The host. -/
  http_host : str "HTTP_HOST=" ++ req.host ∈ (envpNew req).entries
  /-- Each header has an entry of its own. -/
  hdrs : clientEntries req = req.hdrs.map Hdr.entry

/-- There is room for all strings of a request. -/
structure Roomy (req : Req) : Prop where
  /-- The hosts fit into `host`. -/
  host : req.overrun = false
  /-- The strings and the null pointer fit into `envp`. -/
  count : serverCount req + req.hdrs.length < ENVP_CNT
  /-- The keys and their terminators fit into `key`. -/
  key : ∀ h ∈ req.hdrs, h.key.length < HDR_KEYSZ
  /-- The entries of the headers fit into the buffer of `ENVSZ` bytes. -/
  entry : ∀ h ∈ req.hdrs, h.entry.length < ENVSZ
  /-- So does that of the target. -/
  uri : (str "REQUEST_URI=" ++ cstr req.uri).length < ENVSZ
  /-- So does that of the parameters. -/
  query : ∀ k ∈ req.params, (str "QUERY_STRING=" ++ cstr (req.uri.drop k)).length < ENVSZ

/-- A string comes out of the buffer cut to `ENVSZ - 1` bytes. -/
theorem cutEntry_eq {text : List Byte} (h0 : 0 ∉ text) : cutEntry text = text.take (ENVSZ - 1) := by
  rw [cutEntry, strNew, strncpy0_eq_take fun h => h0 (List.mem_of_mem_take h), List.take_take]
  rcases Nat.le_total text.length (ENVSZ - 1) with hle | hle
  · rw [min_eq_left hle, List.take_length, List.take_of_length_le hle]
  · rw [min_eq_right hle]

/-- An entry is whole if and only if it is shorter than the buffer. -/
theorem cutEntry_eq_self {text : List Byte} (h0 : 0 ∉ text) :
    cutEntry text = text ↔ text.length < ENVSZ := by
  rw [cutEntry_eq h0, List.take_eq_self_iff]
  unfold ENVSZ
  omega

/-- An entry and its NUL fit into the array. -/
theorem cutEntry_length (text : List Byte) : (cutEntry text).length < ENVSZ := by
  have hcut : (cutEntry text).length ≤ (text.take (ENVSZ - 1)).length :=
    ((List.takeWhile_prefix _).length_le).trans (List.length_take_le' _ _)
  rw [List.length_take] at hcut
  unfold ENVSZ at hcut ⊢
  omega

/-- No string in the array is as long as the buffer. -/
theorem entries_length {s : List Byte} (hs : s ∈ (envpNew req).entries) : s.length < ENVSZ := by
  rw [envpNew_entries, envpEntries, List.mem_append] at hs
  rcases hs with hs | hs <;> obtain ⟨x, -, rfl⟩ := List.mem_map.1 hs
  · exact cutEntry_length _
  · exact cutEntry_length _

/-- A string of the server is there in full if and only if it is shorter than the buffer. -/
theorem text_mem {text : List Byte} (htext : text ∈ envpTexts req) (h0 : 0 ∉ text) :
    text ∈ (envpNew req).entries ↔ text.length < ENVSZ := by
  refine ⟨entries_length, fun hlt => ?_⟩
  rw [envpNew_entries, envpEntries, List.mem_append, ← (cutEntry_eq_self h0).2 hlt]
  exact .inl (List.mem_map_of_mem htext)

/-- What is printed for a header. -/
theorem hdrText_eq (hp : h.Parsed) : hdrText h = h.entry ∧ 0 ∉ h.entry := by
  have hkey := (convertKey_eq hp.key.clean hp.key_size).2
  have hchars : 0 ∉ h.key.map envChar := fun hmem => by
    obtain ⟨c, hc, hz⟩ := List.mem_map.1 hmem
    exact hp.key.clean ((convertChar_eq c).2 hz ▸ hc)
  have hlit : 0 ∉ str "CONTENT_TYPE" ∧ 0 ∉ str "HTTP_" ∧ 0 ∉ str "=" := by simp [str]
  obtain ⟨hct, hhttp, heq⟩ := hlit
  have hval := hp.val.clean
  unfold hdrText Hdr.entry
  rw [hkey]
  split
  · exact ⟨rfl, by simp [hct, heq, hval]⟩
  · exact ⟨rfl, by simp [hhttp, hchars, heq, hval]⟩

/-- The loop over the headers leaves the mark if one of them is converted out of the array. -/
theorem envpHdrs_overrun (e : Envp) (hdrs : List Hdr) (hroom : e.cnt + hdrs.length ≤ ENVP_CNT) :
    (envpHdrs e hdrs).overrun = (e.overrun || hdrs.any fun hdr =>
      !strcaseeq hdr.key (str "Content-Type") && decide
        (HDR_KEYSZ + 5 < (convertKey hdr.key).length)) := by
  induction hdrs generalizing e with
  | nil => simp [envpHdrs]
  | cons hdr hdrs ih =>
    rw [List.length_cons] at hroom
    have hcnt : (e.addHdr hdr).cnt = e.cnt + 1 := by
      unfold Envp.addHdr
      split <;> rfl
    rw [envpHdrs, if_pos (by omega), ih _ (by omega), List.any_cons, ← Bool.or_assoc]
    congr 1
    unfold Envp.addHdr
    cases strcaseeq hdr.key (str "Content-Type") with
    | true => exact (Bool.or_false _).symm
    | false => rfl

/-- The keys stay inside their array if and only if each is shorter than a key can be. -/
theorem overrun_iff (hp : ∀ h ∈ req.hdrs, h.Parsed)
    (hcount : serverCount req + req.hdrs.length < ENVP_CNT) :
    (envpNew req).overrun = false ↔ ∀ h ∈ req.hdrs, h.key.length < HDR_KEYSZ := by
  have hfilled := envpServer_filled req
  have hcnt : (envpServer req).cnt = serverCount req := by
    rw [hfilled.2, List.length_map, envpTexts_length]
  have hmark : (envpServer req).overrun = false := by
    have hfold : ∀ (texts : List (List Byte)) (e : Envp), (texts.foldl Envp.add e).overrun =
      e.overrun := by
      intro texts
      induction texts with
      | nil => exact fun e => rfl
      | cons text texts ih => exact fun e => ih (e.add text)
    exact hfold _ _
  show (envpHdrs _ _).overrun = false ↔ _
  rw [envpHdrs_overrun _ _ (by omega), hmark, Bool.false_or, List.any_eq_false]
  refine forall₂_congr fun h hh => ?_
  have hsize := (convertKey_eq (hp h hh).key.clean (hp h hh).key_size).1
  have hle := (hp h hh).key_size
  cases hct : strcaseeq h.key (str "Content-Type") with
  | false =>
    rw [Bool.not_false, Bool.true_and, decide_eq_true_eq]
    omega
  | true =>
    -- The name of the type is a short key.
    have hlen := congrArg List.length (eq_of_beq hct)
    rw [List.length_map, List.length_map] at hlen
    have h12 : (str "Content-Type").length = 12 := by simp [str]
    have hlt : h.key.length < HDR_KEYSZ := by
      rw [hlen, h12]
      decide
    simp [hlt]

/-- The environment of a dynamic request holds its strings in full if and only if there is room for
them. -/
theorem sees_iff (hreq : req.Parsed) (hd : req.type = .dynamic) : Sees req ↔ Roomy req := by
  have hclean : 0 ∉ cstr req.uri := cstr_clean _
  have hlong : 4 ≤ (cstr req.uri).length := by
    have hle := (hreq.type.1 hd).length_le
    rw [show (str "/cgi/").length = 5 by simp [str]] at hle
    omega
  have h4 : PREFIX.length = 4 := by simp [PREFIX, str]
  -- Each text of the request is one of those that `envp_init` prints.
  have hinfo : str "PATH_INFO=" ++ (cstr req.uri).drop 4 ∈ envpTexts req := by
    rw [← cstr_drop hlong]
    simp [envpTexts, h4]
  have huri : str "REQUEST_URI=" ++ cstr req.uri ∈ envpTexts req := by simp [envpTexts]
  have hquery : ∀ k ∈ req.params, str "QUERY_STRING=" ++ cstr (req.uri.drop k) ∈ envpTexts req := by
    intro k hk
    rw [Option.mem_def] at hk
    simp [envpTexts, hk]
  have hhost : str "HTTP_HOST=" ++ req.host ∈ envpTexts req := by simp [envpTexts]
  have hnul : ∀ name s : List Byte, 0 ∉ name → 0 ∉ s → 0 ∉ name ++ s := by simp +contextual
  have hname : ∀ name ∈ [str "PATH_INFO=", str "REQUEST_URI=", str "QUERY_STRING=",
    str "HTTP_HOST="], 0 ∉ name := by
    simp [str]
  have hinfo' :=
    text_mem hinfo (hnul _ _ (hname _ (by simp)) fun h => hclean (List.mem_of_mem_drop h))
  have huri' := text_mem huri (hnul _ _ (hname _ (by simp)) hclean)
  have hquery' := fun k hk => text_mem (hquery k hk) (hnul _ _ (hname _ (by simp)) (cstr_clean _))
  have hhost' := text_mem hhost (hnul _ _ (hname _ (by simp)) hreq.host)
  have hentries := clientEntries_eq req
  constructor
  · intro h
    have hcount := (inside_iff req).1 h.envp_inside
    refine ⟨h.host_inside, hcount, (overrun_iff hreq.hdrs hcount).1 h.key_inside,
      fun hdr hmem => ?_,
      huri'.1 h.request_uri, fun k hk => (hquery' k hk).1 (h.query_string k hk)⟩
    -- An entry that is there as a whole was not cut, so it fits.
    have hentry : hdr.entry ∈ clientEntries req := by
      rw [h.hdrs]
      exact List.mem_map_of_mem hmem
    exact entries_length (List.mem_of_mem_drop hentry)
  · intro h
    have hall : ENVP_CNT - serverCount req ≥ req.hdrs.length := by
      have := h.count
      omega
    refine ⟨h.host, (overrun_iff hreq.hdrs h.count).2 h.key,
      (inside_iff req).2 h.count, hinfo'.2 ?_,
      huri'.2 h.uri, fun k hk => (hquery' k hk).2 (h.query k hk), hhost'.2 ?_, ?_⟩
    · -- PATH_INFO is a part of REQUEST_URI, under a shorter name.
      have hlt := h.uri
      have h12 : (str "REQUEST_URI=").length = 12 := by simp [str]
      have h10 : (str "PATH_INFO=").length = 10 := by simp [str]
      rw [List.length_append, h12] at hlt
      rw [List.length_append, List.length_drop, h10]
      omega
    · have hle := hreq.host_size h.host
      have h10 : (str "HTTP_HOST=").length = 10 := by simp [str]
      rw [List.length_append, h10]
      unfold REQ_HOSTSZ at hle
      unfold ENVSZ
      omega
    · rw [hentries, List.take_of_length_le hall]
      refine List.map_congr_left fun hdr hmem => ?_
      obtain ⟨htext, h0⟩ := hdrText_eq (hreq.hdrs hdr hmem)
      rw [htext, (cutEntry_eq_self h0).2 (h.entry hdr hmem)]

/-- The environment of an accepted request holds its strings in full if and only if there is room
for them. -/
theorem environment_full (chunks : List (Byte × List Byte))
    (hchunks : ∀ chunk ∈ chunks, chunk.2.getLast? = some LF) (r : Req)
    (hs : (parseChunks (reqReset r) chunks).1 = none)
    (hb : (parseChunks (reqReset r) chunks).2.phase = .body)
    (hd : (parseChunks (reqReset r) chunks).2.type = .dynamic) :
    Sees (parseChunks (reqReset r) chunks).2 ↔ Roomy (parseChunks (reqReset r) chunks).2 :=
  sees_iff (accepted_parsed hchunks r hs hb).1 hd

/-- The program sees the whole environment of a small request. -/
theorem environment_full_cgi :
    Sees (parseChunks (reqReset (reqNew [])) cgiHead).2 ↔
      Roomy (parseChunks (reqReset (reqNew [])) cgiHead).2 :=
  environment_full cgiHead cgiHead_accepted.1 (reqNew []) cgiHead_accepted.2.1
    cgiHead_accepted.2.2.1
    cgiHead_accepted.2.2.2

/-- A head with a value of `ENVSZ` bytes. -/
def longValue : List Byte :=
  str "GET /cgi/ HTTP/1.1\r\nA:" ++ List.replicate ENVSZ 97 ++ str "\r\n\r\n"

/-- A value that is too long for the buffer is cut. -/
theorem environment_cut : ¬ ∀ (before : Byte) (mem lines : List Byte), lines.length ≤ BUFSZ →
    0 ≤ (reqParse before (reqNew mem) lines).1 →
      (reqParse before (reqNew mem) lines).2.phase = .body →
    (reqParse before (reqNew mem) lines).2.type = .dynamic →
    ∀ h ∈ (reqParse before (reqNew mem) lines).2.hdrs,
      h.entry ∈ (envpNew (reqParse before (reqNew mem) lines).2).entries := by
  intro h
  have haccepted : longValue.length ≤ BUFSZ ∧ 0 ≤ (reqParse 0 (reqNew []) longValue).1 ∧
      (reqParse 0 (reqNew []) longValue).2.phase = .body ∧
        (reqParse 0 (reqNew []) longValue).2.type = .dynamic ∧
      ⟨str "A", List.replicate ENVSZ 97⟩ ∈ (reqParse 0 (reqNew []) longValue).2.hdrs := by
        decide +kernel
  obtain ⟨hfits, hrc, hb, hd, hhdr⟩ := haccepted
  have hlen := entries_length (h 0 [] longValue hfits hrc hb hd _ hhdr)
  exact absurd hlen (by decide +kernel)

/-! ## The names -/

/-- The text in front of the first `=`. -/
def nameOf (s : List Byte) : List Byte := s.takeWhile (· != 61)

/-- The variables that the server sets itself. -/
def serverNames : List (List Byte) :=
  [str "GATEWAY_INTERFACE", str "PATH_INFO", str "REQUEST_URI", str "REQUEST_METHOD",
    str "QUERY_STRING",
    str "CONTENT_LENGTH", str "HTTP_CONNECTION", str "REMOTE_ADDR", str "SERVER_PORT",
      str "SERVER_NAME",
    str "SERVER_SOFTWARE", str "SERVER_PROTOCOL", str "HTTP_HOST", str "SCRIPT_NAME", str "HTTPS"]

/-- The key is one that the parser keeps elsewhere, but for an equals sign and what follows it. -/
def Hdr.Poses (h : Hdr) : Prop :=
  61 ∈ h.key ∧
    (strcaseeq (nameOf h.key) (str "Host") = true ∨
      strcaseeq (nameOf h.key) (str "Connection") = true)

/-- A beginning without an equals sign belongs to the name. -/
theorem nameOf_skip {a : List Byte} (ha : 61 ∉ a) (b : List Byte) :
    nameOf (a ++ b) = a ++ nameOf b := by
  rw [nameOf, List.takeWhile_append_of_pos]
  · rfl
  · intro c hc
    have hne : c ≠ 61 := fun he => ha (he ▸ hc)
    simpa using hne

/-- The name ends at the first equals sign. -/
theorem nameOf_append {w : List Byte} (hw : 61 ∈ w) (t : List Byte) :
    nameOf (w ++ t) = nameOf w := by
  obtain ⟨a, b, rfl, ha⟩ := List.eq_append_cons_of_mem hw
  rw [List.append_assoc, nameOf_skip ha, nameOf_skip ha]
  simp [nameOf]

/-- An equals sign at the end does not change a name. -/
theorem nameOf_end (s : List Byte) : nameOf (s ++ str "=") = nameOf s := by
  by_cases hs : 61 ∈ s
  · exact nameOf_append hs _
  · have hskip := nameOf_skip hs
    have hself := hskip []
    rw [List.append_nil] at hself
    rw [hskip, hself]
    rfl

/-- The name of an entry made of a header, which is not cut. -/
theorem hdrText_name (hp : h.Parsed) : nameOf (cutEntry (hdrText h)) =
    if strcaseeq h.key (str "Content-Type") then str "CONTENT_TYPE" else str "HTTP_" ++
      (nameOf h.key).map envChar := by
  have hsize := hp.key_size
  obtain ⟨htext, h0⟩ := hdrText_eq hp
  -- The first equals sign stands in front of the cut.
  have hcut : ∀ w t : List Byte, 61 ∈ w → w.length < ENVSZ → nameOf ((w ++ t).take (ENVSZ - 1)) =
    nameOf w := by
    intro w t hw hlen
    have hle : w.length ≤ ENVSZ - 1 := Nat.le_sub_one_of_lt hlen
    rw [List.take_append, List.take_of_length_le hle, nameOf_append hw]
  have hmem : ∀ s : List Byte, 61 ∈ s ++ str "=" := fun s => List.mem_append_right _ (by simp [str])
  have hone : (str "=").length = 1 := by simp [str]
  rw [cutEntry_eq (htext ▸ h0), htext]
  unfold Hdr.entry
  cases hct : strcaseeq h.key (str "Content-Type") with
  | true =>
    rw [if_pos rfl, if_pos rfl, hcut _ _ (hmem _) (by simp [str, ENVSZ])]
    simp [nameOf, str]
  | false =>
    have h5 : (str "HTTP_").length = 5 := by simp [str]
    rw [if_neg Bool.false_ne_true, if_neg Bool.false_ne_true, hcut _ _ (hmem _)]
    · -- An equals sign stays what it is, and nothing becomes one.
      have heq : ((· != 61) ∘ envChar : Byte → Bool) = (· != 61) := by
        funext c
        revert c
        decide +kernel
      rw [nameOf_end, nameOf_skip (by simp [str]), nameOf, List.takeWhile_map, heq]
      rfl
    · rw [List.length_append, List.length_append, List.length_map, h5, hone]
      unfold HDR_KEYSZ at hsize
      unfold ENVSZ
      omega

/-- The names of the server that a header's entry could take. -/
theorem serverNames_http (x : List Byte) :
    str "HTTP_" ++ x ∈ serverNames ↔ x = (str "Host").map envChar ∨
      x = (str "Connection").map envChar := by
  constructor
  · intro h
    have hall : ∀ n ∈ serverNames, n.take 5 = str "HTTP_" →
        n.drop 5 = (str "Host").map envChar ∨ n.drop 5 = (str "Connection").map envChar := by
          decide +kernel
    exact hall _ h (List.take_left' (by simp [str]))
  · rintro (rfl | rfl)
    · decide +kernel
    · decide +kernel

/-- For a word of letters, the conversion of a name and the comparison without regard to case
agree. -/
theorem envChar_caseeq {w : List Byte}
    (hw : ∀ b ∈ w, ∀ c, envChar c = envChar b ↔ tolower c = tolower b) (s : List Byte) :
    s.map envChar = w.map envChar ↔ strcaseeq s w = true := by
  rw [strcaseeq, beq_iff_eq]
  induction s generalizing w with
  | nil => cases w <;> simp
  | cons c s ih =>
    cases w with
    | nil => simp
    | cons b w =>
      rw [List.map_cons, List.map_cons, List.map_cons, List.map_cons,
        List.cons.injEq, List.cons.injEq,
        hw b (by simp) c, ih fun b hb => hw b (List.mem_cons_of_mem _ hb)]

/-- The entry made of a header takes the name of a variable of the server if and only if the header
poses as one. -/
theorem poses_iff (hp : h.Parsed) : nameOf (cutEntry (hdrText h)) ∈ serverNames ↔ h.Poses := by
  have hletters : ∀ w ∈ [str "Host", str "Connection"], ∀ b ∈ w, ∀ c, envChar c = envChar b ↔
    tolower c = tolower b := by
    decide +kernel
  have hhost := envChar_caseeq (hletters (str "Host") (by simp)) (nameOf h.key)
  have hconn := envChar_caseeq (hletters (str "Connection") (by simp)) (nameOf h.key)
  rw [hdrText_name hp]
  cases hct : strcaseeq h.key (str "Content-Type") with
  | true =>
    have hlit : str "CONTENT_TYPE" ∉ serverNames ∧ 61 ∉ (str "Content-Type").map tolower := by
      simp [str, serverNames, tolower]
    rw [if_pos rfl]
    refine ⟨fun hmem => absurd hmem hlit.1, fun hpose => ?_⟩
    -- There is no equals sign in the name of the type.
    have hmap : h.key.map tolower = (str "Content-Type").map tolower := eq_of_beq hct
    have hmem : (61 : Byte) ∈ h.key.map tolower := List.mem_map.2 ⟨61, hpose.1, by decide⟩
    rw [hmap] at hmem
    exact absurd hmem hlit.2
  | false =>
    rw [if_neg Bool.false_ne_true, serverNames_http, hhost, hconn]
    refine ⟨fun hname => ⟨?_, hname⟩, fun hpose => hpose.2⟩
    by_contra hno
    -- The parser keeps such a header elsewhere.
    have hkey : nameOf h.key = h.key := by
      rw [nameOf, List.takeWhile_eq_self_iff]
      intro c hc
      have hne : c ≠ 61 := fun he => hno (he ▸ hc)
      simpa using hne
    have hord := hp.ordinary
    rw [hkey] at hname
    unfold Hdr.ordinary at hord
    rcases hname with hname | hname <;> simp [hname] at hord

/-- No header of an accepted request takes the name of a variable of the server if and only if none
poses as one and gets an entry. -/
theorem names_kept (chunks : List (Byte × List Byte))
    (hchunks : ∀ chunk ∈ chunks, chunk.2.getLast? = some LF) (r : Req)
    (hs : (parseChunks (reqReset r) chunks).1 = none)
    (hb : (parseChunks (reqReset r) chunks).2.phase = .body) :
    (∀ s ∈ clientEntries (parseChunks (reqReset r) chunks).2, nameOf s ∉ serverNames) ↔
      ∀ h ∈ (parseChunks (reqReset r) chunks).2.hdrs.take
          (ENVP_CNT - serverCount (parseChunks (reqReset r) chunks).2),
        ¬ h.Poses := by
  have hparsed := (accepted_parsed hchunks r hs hb).1.hdrs
  rw [clientEntries_eq, List.forall_mem_map]
  exact forall₂_congr fun h hh => not_congr (poses_iff (hparsed h (List.mem_of_mem_take hh)))

/-- No header of a small request poses as an entry of the server. -/
theorem names_kept_cgi :
    (∀ s ∈ clientEntries (parseChunks (reqReset (reqNew [])) cgiHead).2, nameOf s ∉ serverNames) ↔
      ∀ h ∈ (parseChunks (reqReset (reqNew [])) cgiHead).2.hdrs.take
        (ENVP_CNT - serverCount (parseChunks (reqReset (reqNew [])) cgiHead).2), ¬ h.Poses :=
  names_kept cgiHead cgiHead_accepted.1 (reqNew []) cgiHead_accepted.2.1 cgiHead_accepted.2.2.1

/-- A head with a header that poses as the host. -/
def posingHead : List Byte := str "GET /cgi/ HTTP/1.1\r\nHost=a: b\r\n\r\n"

/-- The header `Host=a: b` sets `HTTP_HOST`. -/
theorem names_taken : ¬ ∀ (before : Byte) (mem lines : List Byte), lines.length ≤ BUFSZ →
    0 ≤ (reqParse before (reqNew mem) lines).1 →
      (reqParse before (reqNew mem) lines).2.phase = .body →
    (reqParse before (reqNew mem) lines).2.type = .dynamic →
    ∀ s ∈ clientEntries (reqParse before (reqNew mem) lines).2, nameOf s ∉ serverNames := by
  intro h
  have haccepted : posingHead.length ≤ BUFSZ ∧ 0 ≤ (reqParse 0 (reqNew []) posingHead).1 ∧
      (reqParse 0 (reqNew []) posingHead).2.phase = .body ∧
        (reqParse 0 (reqNew []) posingHead).2.type = .dynamic ∧
      str "HTTP_HOST=A=b" ∈ clientEntries (reqParse 0 (reqNew []) posingHead).2 := by decide +kernel
  obtain ⟨hfits, hrc, hb, hd, hentry⟩ := haccepted
  have hno := h 0 [] posingHead hfits hrc hb hd _ hentry
  exact absurd hno (by decide +kernel)

end Liso
