import SocketServer.Tcp.Transfer

/-!
# A connection that stores and fetches files

Message 3 sends the file that message 21 has named last, behind its length in eight bytes. So a connection is a store:
a transfer (21 to 24) puts a content under a path and stays at this path, message 21 by itself goes to a path, and
message 3 gets the content there; where there is none, `open` raises and the connection is closed. `serve` is this store
without a wire.

* `runMessages_serve` : the handler does what `serve` does;
* `handle_serve` : on a fresh connection, with recv results that are parts of one frame each, the first of a frame with
  the four bytes of its length;
* `handle_fetched` : a client that splits the answers again by their lengths gets the contents of the store.
-/

namespace SocketServer.Tcp

open Bytes

variable {P ω : Type} [DecidableEq P]

/-! ### Message 3 -/

/-- What `do` uses for message 3 and does not define. -/
structure DownloadEnv where
  /-- Is `json.loads(data).get("gzip") == True`? `none` if it raises. -/
  loadsGzip : Bytes → Option Bool
  /-- `compress_gzip` at a time, which goes into its head. -/
  compress : Nat → Bytes → Bytes

/-- `do(3, data)` at a time, with what the file holds; `none` if it raises. -/
def download (dl : DownloadEnv) (time : Nat) (data : Bytes) (file : Option Bytes) : Option Bytes := do
  let gzip ← dl.loadsGzip data
  let content ← file
  let content := if gzip then dl.compress time content else content
  let length ← pack .little 8 content.length
  return length ++ content

/-- A connection and a disk as `Works` has them, where every file can be written and writing it changes no other one,
and a handler whose `on_data` answers message 3. -/
structure Serves (env : HandlerEnv P ω) (dl : DownloadEnv) (sent : ω → List Bytes) (file : ω → P → Option Bytes) : Prop
    extends Works env sent file fun _ => True where
  file_writeFile_eq : ∀ path data world, file (env.writeFile path data world).2 =
    Function.update (file world) path (some data)
  onData : ∀ data path world, ∃ time,
    env.onData 3 data path world = ((download dl time data (file world path)).map some, world)

/-! ### The store -/

/-- A message 21: `name` is the JSON of a path and a flag. -/
structure FileName (env : HandlerEnv P ω) where
  filepath : P
  gzip : Bool
  name : Bytes
  loads : env.loads name = some (filepath, gzip)
  short : name.length + 4 < 2 ^ 31

/-- A message 3, and what it asks for. -/
structure Fetch (dl : DownloadEnv) where
  gzip : Bool
  request : Bytes
  loads : dl.loadsGzip request = some gzip
  short : request.length + 4 < 2 ^ 31

/-- What a client asks for. -/
inductive FileOp (env : HandlerEnv P ω) (dl : DownloadEnv)
  | put (u : Transfer env)
  | goto (n : FileName env)
  | get (g : Fetch dl)

/-- The files, and the path named last. -/
structure FileStore (P : Type) where
  files : P → Option Bytes
  current : P

variable {env : HandlerEnv P ω} {dl : DownloadEnv}

namespace FileOp

/-- The bodies of its frames. -/
def bodies : FileOp env dl → List Bytes
  | .put u => u.bodies
  | .goto n => [commandBody (21, n.name)]
  | .get g => [commandBody (3, g.request)]

/-- What it does to the store at a time, and the answers; `none` if the connection is closed. -/
def step (time : Nat) (st : FileStore P) : FileOp env dl → Option (FileStore P × List Bytes)
  | .put u => some (⟨Function.update st.files u.filepath (some u.stored), u.filepath⟩, Transfer.replies)
  | .goto n => some (⟨st.files, n.filepath⟩, [[0x32, 0x31, 0x20, 0x6F, 0x6B]])
  | .get g => (download dl time g.request (st.files st.current)).map fun response => (st, [response])

omit [DecidableEq P] in
theorem bodies_short (op : FileOp env dl) : ∀ body ∈ op.bodies, body.length < 2 ^ 31 := by
  cases op with
  | put u => exact u.bodies_short
  | goto n =>
    intro body hbody
    obtain rfl := List.mem_singleton.mp hbody
    rw [commandBody_length, Nat.add_comm]
    exact n.short
  | get g =>
    intro body hbody
    obtain rfl := List.mem_singleton.mp hbody
    rw [commandBody_length, Nat.add_comm]
    exact g.short

end FileOp

/-- The store with the answers, up to the first operation that closes the connection. -/
inductive Serve : List (FileOp env dl) → FileStore P → Flow → FileStore P → List Bytes → Prop
  | nil (st : FileStore P) : Serve [] st .next st []
  | stop {op : FileOp env dl} {ops : List (FileOp env dl)} {st : FileStore P} (time : Nat) :
      op.step time st = none → Serve (op :: ops) st .stop st []
  | cons {op : FileOp env dl} {ops : List (FileOp env dl)} {st st' st'' : FileStore P} {flow : Flow}
      {replies answers : List Bytes} (time : Nat) : op.step time st = some (st', replies) →
      Serve ops st' flow st'' answers → Serve (op :: ops) st flow st'' (replies ++ answers)

/-! ### The disk during a message -/

section

variable {sent : ω → List Bytes} {file : ω → P → Option Bytes} (hserves : Serves env dl sent file)

include hserves

theorem Serves.reply_keeps (data : Bytes) (s : Session P ω) :
    (reply env data s).2.filepath = s.filepath ∧ file (reply env data s).2.world = file s.world := by
  have hsame := hserves.file_sendall data s.world
  unfold reply
  rcases hsend : env.sendall data s.world with ⟨_ | _, world⟩
  all_goals
    rw [hsend] at hsame
    exact ⟨rfl, hsame⟩

/-- Only message 24 changes a file. -/
theorem Serves.act_file {datatype : Int} (h : datatype = 21 ∨ datatype = 22 ∨ datatype = 23) (data : Bytes)
    (s : Session P ω) : file (act env datatype data s).2.world = file s.world := by
  unfold act
  rcases h with rfl | rfl | rfl
  · rw [if_pos rfl, fileName]
    rcases env.loads data with _ | ⟨filepath, gzip⟩
    · rfl
    · exact (hserves.reply_keeps _ { s with filepath := filepath, gzip := some gzip }).2
  · rw [if_neg (by decide), if_pos rfl, fileLength]
    split_ifs
    · rfl
    · rfl
    · exact (hserves.reply_keeps _
        { s with length := decode .little data, content := [], binRecvFlag := true, bufsize := 102400000 }).2
  · rw [if_neg (by decide), if_neg (by decide), if_pos rfl, fileContent]
    split_ifs
    · exact (hserves.reply_keeps _ { s with content := s.content ++ data, bufsize := 1024, binRecvFlag := false }).2
    · rfl
    · rfl

theorem Serves.fileWrite_frame (s : Session P ω) :
    (fileWrite env s).2.filepath = s.filepath ∧
      ∀ q, q ≠ s.filepath → file (fileWrite env s).2.world q = file s.world q := by
  unfold fileWrite
  rcases s.gzip with _ | gzip
  · exact ⟨rfl, fun _ _ => rfl⟩
  dsimp only
  rcases (if gzip then env.decompress s.content else some s.content) with _ | data
  · exact ⟨rfl, fun _ _ => rfl⟩
  dsimp only
  generalize (if data = [0x5E, 0x24] then [] else data) = stored
  have hwrite := hserves.file_writeFile_eq s.filepath stored s.world
  have hframe : ∀ q, q ≠ s.filepath → file (env.writeFile s.filepath stored s.world).2 q = file s.world q := by
    intro q hq
    rw [hwrite, Function.update_of_ne hq]
  rcases hcall : env.writeFile s.filepath stored s.world with ⟨_ | _, world⟩
  all_goals rw [hcall] at hframe
  · exact ⟨rfl, hframe⟩
  · obtain ⟨hpath, hfile⟩ := hserves.reply_keeps [0x32, 0x34, 0x20, 0x6F, 0x6B]
      { s with gzip := some gzip, content := [], world := world }
    refine ⟨hpath, fun q hq => ?_⟩
    dsimp only
    rw [hfile]
    exact hframe q hq

/-! ### The operations -/

theorem Serves.goto (n : FileName env) {s : Session P ω} (hbin : s.binRecvFlag = false) :
    ∃ s', dispatch env (commandBody (21, n.name)) s = (.next, s') ∧ s'.binRecvFlag = false ∧
      s'.filepath = n.filepath ∧ s'.gzip = some n.gzip ∧
      sent s'.world = sent s.world ++ [[0x32, 0x31, 0x20, 0x6F, 0x6B]] ∧ file s'.world = file s.world := by
  have hfile := hserves.act_file (.inl rfl) n.name { s with acted := s.acted ++ [.command 21 n.name] }
  rw [dispatch_command env (by decide) (by decide) _ hbin]
  rw [act, if_pos rfl, fileName, n.loads] at hfile ⊢
  dsimp only at hfile ⊢
  obtain ⟨world, hreply, hsent, -⟩ := hserves.reply [0x32, 0x31, 0x20, 0x6F, 0x6B]
    { s with filepath := n.filepath, gzip := some n.gzip, acted := s.acted ++ [.command 21 n.name] }
  rw [hreply] at hfile
  exact ⟨_, hreply, hbin, rfl, rfl, hsent, hfile⟩

theorem Serves.put (u : Transfer env) {s : Session P ω} (hbin : s.binRecvFlag = false) :
    ∃ s', runMessages env u.bodies s = (.next, s') ∧ s'.binRecvFlag = false ∧ s'.filepath = u.filepath ∧
      sent s'.world = sent s.world ++ Transfer.replies ∧
      file s'.world = Function.update (file s.world) u.filepath (some u.stored) := by
  obtain ⟨s₁, hname, hbin₁, hpath₁, hgzip₁, hsent₁, hfile₁⟩ :=
    hserves.goto ⟨u.filepath, u.gzip, u.name, u.loads, u.nameShort⟩ hbin
  dsimp only at hname hpath₁ hgzip₁
  obtain ⟨s₂, hlength, hbin₂, hcontent₂, hlength₂, hpath₂, hgzip₂, hsent₂⟩ :=
    dispatch_length hserves.toWorks u hbin₁
  obtain ⟨s₃, hpayload, hbin₃, hcontent₃, hpath₃, hgzip₃, hsent₃⟩ :=
    dispatch_payload hserves.toWorks u hbin₂ hcontent₂ hlength₂
  have hpath : s₃.filepath = u.filepath := hpath₃.trans (hpath₂.trans hpath₁)
  have hgzip : s₃.gzip = some u.gzip := hgzip₃.trans (hgzip₂.trans hgzip₁)
  obtain ⟨s₄, hwrite, hbin₄, hcontent₄, hsent₄, hfile₄⟩ :=
    dispatch_write hserves.toWorks u trivial hbin₃ hcontent₃ hpath hgzip
  have hfile₂ : file s₂.world = file s₁.world := by
    have hsame := hserves.act_file (.inr (.inl rfl)) (encode .little 8 u.payload.length)
      { s₁ with acted := s₁.acted ++ [.command 22 (encode .little 8 u.payload.length)] }
    rwa [← dispatch_command env (by decide) (by decide) _ hbin₁, hlength] at hsame
  have hfile₃ : file s₃.world = file s₂.world := by
    have hsame := hserves.act_file (.inr (.inr rfl)) u.payload { s₂ with acted := s₂.acted ++ [.content u.payload] }
    have hdispatch : dispatch env u.payload s₂ = act env 23 u.payload _ := if_pos hbin₂
    rwa [← hdispatch, hpayload] at hsame
  have hact : dispatch env (commandBody (24, [])) s₃ =
      fileWrite env { s₃ with acted := s₃.acted ++ [.command 24 []] } := by
    rw [dispatch_command env (by decide) (by decide) _ hbin₃, act, if_neg (by decide), if_neg (by decide),
      if_neg (by decide), if_pos rfl]
  obtain ⟨hpath₄, hframe⟩ := hserves.fileWrite_frame { s₃ with acted := s₃.acted ++ [.command 24 []] }
  rw [← hact, hwrite] at hpath₄ hframe
  refine ⟨s₄, ?_, hbin₄, hpath₄.trans hpath, ?_, ?_⟩
  · simp only [Transfer.bodies, runMessages, hname, hlength, hpayload, hwrite]
  · rw [hsent₄, hsent₃, hsent₂, hsent₁]
    simp only [Transfer.replies, List.append_assoc, List.cons_append, List.nil_append]
  · funext q
    by_cases hq : q = u.filepath
    · rw [hq, Function.update_self, hfile₄]
    · rw [Function.update_of_ne hq, ← hfile₁, ← hfile₂, ← hfile₃]
      exact hframe q (by rwa [hpath])

omit hserves in
theorem download_length {time : Nat} {data response : Bytes} {held : Option Bytes}
    (h : download dl time data held = some response) : 8 ≤ response.length := by
  simp only [download, Option.bind_eq_bind, Option.bind_eq_some_iff] at h
  obtain ⟨gzip, -, content, -, length, hlength, hresponse⟩ := h
  obtain rfl := Option.some.inj hresponse
  rw [List.length_append, length_of_pack hlength]
  exact Nat.le_add_right _ _

theorem Serves.get (g : Fetch dl) {s : Session P ω} (hbin : s.binRecvFlag = false) :
    ∃ time s', file s'.world = file s.world ∧
      ((download dl time g.request (file s.world s.filepath) = none ∧
          dispatch env (commandBody (3, g.request)) s = (.stop, s') ∧ sent s'.world = sent s.world) ∨
        ∃ response, download dl time g.request (file s.world s.filepath) = some response ∧
          dispatch env (commandBody (3, g.request)) s = (.next, s') ∧ s'.binRecvFlag = false ∧
          s'.filepath = s.filepath ∧ sent s'.world = sent s.world ++ [response]) := by
  obtain ⟨time, hcall⟩ := hserves.onData g.request s.filepath s.world
  refine ⟨time, ?_⟩
  have hact : dispatch env (commandBody (3, g.request)) s =
      callOnData env 3 g.request { s with acted := s.acted ++ [.command 3 g.request] } := by
    rw [dispatch_command env (by decide) (by decide) _ hbin, act_command env (by decide)]
  rw [hact]
  unfold callOnData
  dsimp only
  rcases hdownload : download dl time g.request (file s.world s.filepath) with _ | response
  all_goals rw [hdownload] at hcall
  · rw [hcall]
    dsimp only [Option.map_none]
    refine ⟨_, ?_, .inl ⟨rfl, rfl, ?_⟩⟩
    all_goals rfl
  · rw [hcall]
    have hne : response ≠ [] := by
      rintro rfl
      exact absurd (download_length hdownload) (by decide)
    have hworld : respond env response s.world = (env.sendall response s.world).2 := by
      have hsend := hserves.sendall response s.world
      unfold respond
      rcases hresult : env.sendall response s.world with ⟨ok, world⟩
      rw [hresult] at hsend
      obtain rfl : ok = true := hsend
      rfl
    refine ⟨_, ?_, .inr ⟨response, rfl, rfl, hbin, rfl, ?_⟩⟩
    · dsimp only [Option.map_some]
      rw [if_neg hne, hworld, hserves.file_sendall]
    · dsimp only [Option.map_some]
      rw [if_neg hne, hworld, hserves.sent_sendall]

/-- The handler is where the store is. -/
structure Stands (file : ω → P → Option Bytes) (s : Session P ω) (st : FileStore P) : Prop where
  command : s.binRecvFlag = false
  current : s.filepath = st.current
  files : file s.world = st.files

theorem Serves.step (op : FileOp env dl) {s : Session P ω} {st : FileStore P} (h : Stands file s st) :
    ∃ time s', (op.step time st = none ∧ runMessages env op.bodies s = (.stop, s') ∧ file s'.world = st.files ∧
        sent s'.world = sent s.world) ∨
      ∃ st' replies, op.step time st = some (st', replies) ∧ runMessages env op.bodies s = (.next, s') ∧
        Stands file s' st' ∧ sent s'.world = sent s.world ++ replies := by
  cases op with
  | put u =>
    obtain ⟨s', hrun, hbin, hpath, hsent, hfile⟩ := hserves.put u h.command
    exact ⟨0, s', .inr ⟨_, _, rfl, hrun, ⟨hbin, hpath, by rw [hfile, h.files]⟩, hsent⟩⟩
  | goto n =>
    obtain ⟨s', hrun, hbin, hpath, -, hsent, hfile⟩ := hserves.goto n h.command
    refine ⟨0, s', .inr ⟨_, _, rfl, ?_, ⟨hbin, hpath, hfile.trans h.files⟩, hsent⟩⟩
    simp only [FileOp.bodies, runMessages, hrun]
  | get g =>
    obtain ⟨time, s', hfile, hget⟩ := hserves.get g h.command
    rw [h.current, h.files] at hget
    refine ⟨time, s', ?_⟩
    rcases hget with ⟨hnone, hrun, hsent⟩ | ⟨response, hsome, hrun, hbin, hpath, hsent⟩
    · refine .inl ⟨?_, ?_, hfile.trans h.files, hsent⟩
      · rw [FileOp.step, hnone]
        rfl
      · simp only [FileOp.bodies, runMessages, hrun]
    · refine .inr ⟨st, [response], ?_, ?_, ⟨hbin, hpath, hfile.trans h.files⟩, hsent⟩
      · rw [FileOp.step, hsome]
        rfl
      · simp only [FileOp.bodies, runMessages, hrun]

theorem runMessages_serve (ops : List (FileOp env dl)) {s : Session P ω} {st : FileStore P} (h : Stands file s st) :
    ∃ flow st' answers s', Serve ops st flow st' answers ∧
      runMessages env (ops.flatMap FileOp.bodies) s = (flow, s') ∧ file s'.world = st'.files ∧
      sent s'.world = sent s.world ++ answers := by
  induction ops generalizing s st with
  | nil => exact ⟨.next, st, [], s, .nil st, rfl, h.files, (List.append_nil _).symm⟩
  | cons op ops ih =>
    rw [List.flatMap_cons, runMessages_append]
    obtain ⟨time, s₁, ⟨hnone, hrun, hfile, hsent⟩ | ⟨st₁, replies, hsome, hrun, hstands, hsent⟩⟩ := hserves.step op h
    · rw [hrun]
      exact ⟨.stop, st, [], s₁, .stop time hnone, rfl, hfile, hsent.trans (List.append_nil _).symm⟩
    · obtain ⟨flow, st', answers, s₂, hserve, hrest, hfile₂, hsent₂⟩ := ih hstands
      rw [hrun]
      refine ⟨flow, st', replies ++ answers, s₂, .cons time hsome hserve, hrest, hfile₂, ?_⟩
      rw [hsent₂, hsent, List.append_assoc]

theorem handleLoop_serve (ops : List (FileOp env dl)) (segs : List Bytes) (hne : ∀ seg ∈ segs, seg ≠ [])
    (hstream : segs.flatten = stream (ops.flatMap FileOp.bodies))
    (hfits : Fits 0 ((ops.flatMap FileOp.bodies).map wire) segs) (world : ω) :
    ∃ flow st answers s, Serve ops ⟨file world, env.tmp⟩ flow st answers ∧
      (∀ more, handle env (segs ++ more) world =
        match flow with
        | .next => handleLoop env more .idle s
        | .stop => s) ∧
      file s.world = st.files ∧ sent s.world = sent world ++ answers := by
  have hshort : ∀ body ∈ ops.flatMap FileOp.bodies, body.length < 2 ^ 31 := by
    intro body hbody
    obtain ⟨op, -, hop⟩ := List.mem_flatMap.mp hbody
    exact op.bodies_short body hop
  have hstands : Stands file (setup env world) ⟨file world, env.tmp⟩ := ⟨rfl, rfl, rfl⟩
  obtain ⟨flow, st, answers, s, hserve, hrun, hfile, hsent⟩ := runMessages_serve hserves ops hstands
  refine ⟨flow, st, answers, s, hserve, fun more => ?_, hfile, hsent⟩
  have hloop := handleLoop_messages env segs _ .idle (setup env world) hne hshort (hstream ▸ .between _) hfits more
  rw [hrun] at hloop
  cases flow <;> exact hloop

end

/-! ### The client -/

namespace FileOp

/-- What the store is afterwards. -/
def after (st : FileStore P) : FileOp env dl → FileStore P
  | .put u => ⟨Function.update st.files u.filepath (some u.stored), u.filepath⟩
  | .goto n => ⟨st.files, n.filepath⟩
  | .get _ => st

/-- The content that is asked for. -/
def wanted (st : FileStore P) : FileOp env dl → List Bytes
  | .get _ => (st.files st.current).toList
  | _ => []

/-- A client reads the answers, `21 ok` to `24 ok` or a content behind its length, which it decompresses with
`gunzip`: the contents, and what comes next. -/
def read (gunzip : Bytes → Option Bytes) : FileOp env dl → Bytes → Option (List Bytes × Bytes)
  | .put _, s => if s.take 20 = Transfer.replies.flatten then some ([], s.drop 20) else none
  | .goto _, s => if s.take 5 = [0x32, 0x31, 0x20, 0x6F, 0x6B] then some ([], s.drop 5) else none
  | .get g, s =>
    let length := decode .little (s.take 8)
    if s.length < 8 + length then none
    else
      let content := (s.drop 8).take length
      (if g.gzip then gunzip content else some content).map fun content => ([content], s.drop (8 + length))

end FileOp

/-- The contents that a session asks for. -/
def fetched : List (FileOp env dl) → FileStore P → List Bytes
  | [], _ => []
  | op :: ops, st => op.wanted st ++ fetched ops (op.after st)

omit [DecidableEq P] in
/-- The client reads the answers one by one. -/
def readAnswers (gunzip : Bytes → Option Bytes) : List (FileOp env dl) → Bytes → Option (List Bytes × Bytes)
  | [], s => some ([], s)
  | op :: ops, s => do
    let (contents, s) ← op.read gunzip s
    let (contents', s) ← readAnswers gunzip ops s
    return (contents ++ contents', s)

section

variable {gunzip : Bytes → Option Bytes} (hgunzip : ∀ time content, gunzip (dl.compress time content) = some content)

include hgunzip

omit [DecidableEq P] in
theorem read_download (g : Fetch dl) {time : Nat} {held : Option Bytes} {response : Bytes}
    (h : download dl time g.request held = some response) (rest : Bytes) :
    (FileOp.get g : FileOp env dl).read gunzip (response ++ rest) = some (held.toList, rest) := by
  simp only [download, g.loads, Option.bind_eq_bind, Option.bind_some, Option.bind_eq_some_iff] at h
  obtain ⟨content, rfl, length, hlength, hresponse⟩ := h
  generalize hbytes : (if g.gzip = true then dl.compress time content else content) = bytes at hlength hresponse
  obtain rfl := Option.some.inj hresponse
  have height := length_of_pack hlength
  have hdecode : decode .little length = bytes.length := by
    unfold pack at hlength
    split_ifs at hlength with hlt
    obtain rfl := Option.some.inj hlength
    exact decode_encode_of_lt hlt
  have hunzip : (if g.gzip = true then gunzip bytes else some bytes) = some content := by
    rw [← hbytes]
    split_ifs
    · exact hgunzip time content
    · rfl
  have htake : (length ++ bytes ++ rest).take 8 = length := by
    rw [List.append_assoc, ← height, List.take_left]
  have hdrop : (length ++ bytes ++ rest).drop 8 = bytes ++ rest := by
    rw [List.append_assoc, ← height, List.drop_left]
  have hrest : (length ++ bytes ++ rest).drop (8 + bytes.length) = rest := by
    rw [← List.drop_drop, hdrop, List.drop_left]
  have hlong : ¬(length ++ bytes ++ rest).length < 8 + bytes.length := by
    rw [List.length_append, List.length_append, height]
    omega
  unfold FileOp.read
  dsimp only
  rw [htake, hdecode, if_neg hlong, hdrop, List.take_left, hunzip, hrest]
  rfl

theorem read_step (op : FileOp env dl) {time : Nat} {st st' : FileStore P} {replies : List Bytes}
    (h : op.step time st = some (st', replies)) (rest : Bytes) :
    op.read gunzip (replies.flatten ++ rest) = some (op.wanted st, rest) ∧ st' = op.after st := by
  cases op with
  | put u =>
    cases h
    refine ⟨?_, rfl⟩
    unfold FileOp.read
    dsimp only
    have hlength : Transfer.replies.flatten.length = 20 := rfl
    rw [← hlength, List.take_left, List.drop_left, if_pos rfl]
    rfl
  | goto n =>
    cases h
    exact ⟨rfl, rfl⟩
  | get g =>
    obtain ⟨response, hresponse, hst⟩ := Option.map_eq_some_iff.mp h
    cases hst
    rw [List.flatten_singleton]
    exact ⟨read_download hgunzip g hresponse rest, rfl⟩

/-- The client reads all answers, up to an operation that the store cannot answer. -/
theorem read_serve {ops : List (FileOp env dl)} {st st' : FileStore P} {flow : Flow} {answers : List Bytes}
    (h : Serve ops st flow st' answers) (rest : Bytes) :
    ∃ answered later, ops = answered ++ later ∧
      readAnswers gunzip answered (answers.flatten ++ rest) = some (fetched answered st, rest) ∧
      ∀ op ∈ later.head?, ∃ time, op.step time (answered.foldl FileOp.after st) = none := by
  induction h with
  | nil => exact ⟨[], [], rfl, rfl, fun op hop => by cases hop⟩
  | @stop op ops st time hnone =>
    refine ⟨[], op :: ops, rfl, rfl, fun op' hop => ?_⟩
    cases hop
    exact ⟨time, hnone⟩
  | @cons op ops st st₁ st' flow replies answers time hstep _ ih =>
    obtain ⟨answered, later, rfl, hread, hlater⟩ := ih
    obtain ⟨hop, rfl⟩ := read_step hgunzip op hstep (answers.flatten ++ rest)
    refine ⟨op :: answered, later, rfl, ?_, hlater⟩
    rw [List.flatten_append, List.append_assoc, readAnswers, hop]
    simp only [Option.bind_eq_bind, Option.bind_some, hread]
    rfl

end

/-- **A connection is a store.** On a fresh connection, with a disk and a socket that work, the answers to any transfers,
file names and downloads are those of the store, and so are the files afterwards, in any recv results that are parts of
one frame each, of which the first has the four bytes of its length; a download that the store cannot answer ends the
connection, whatever comes behind it. -/
theorem handle_serve {sent : ω → List Bytes} {file : ω → P → Option Bytes} (hserves : Serves env dl sent file)
    (ops : List (FileOp env dl)) (segs : List Bytes) (hne : ∀ seg ∈ segs, seg ≠ [])
    (hstream : segs.flatten = stream (ops.flatMap FileOp.bodies))
    (hfits : Fits 0 ((ops.flatMap FileOp.bodies).map wire) segs) (world : ω) :
    ∃ flow st answers s, Serve ops ⟨file world, env.tmp⟩ flow st answers ∧
      (∀ more, handle env (segs ++ more) world =
        match flow with
        | .next => handleLoop env more .idle s
        | .stop => s) ∧
      file s.world = st.files ∧ sent s.world = sent world ++ answers :=
  handleLoop_serve hserves ops segs hne hstream hfits world

/-- **What a client fetches is what was stored.** On such a connection, with such recv results, a client that reads the
answers one by one gets the contents that the files hold when it asks for them, up to the end of the session or to a
download that the server cannot answer, and nothing comes behind them. -/
theorem handle_fetched {sent : ω → List Bytes} {file : ω → P → Option Bytes} (hserves : Serves env dl sent file)
    {gunzip : Bytes → Option Bytes} (hgunzip : ∀ time content, gunzip (dl.compress time content) = some content)
    (ops : List (FileOp env dl)) (segs : List Bytes) (hne : ∀ seg ∈ segs, seg ≠ [])
    (hstream : segs.flatten = stream (ops.flatMap FileOp.bodies))
    (hfits : Fits 0 ((ops.flatMap FileOp.bodies).map wire) segs) (world : ω) :
    ∃ answered later answers, ops = answered ++ later ∧
      sent (handle env segs world).world = sent world ++ answers ∧
      readAnswers gunzip answered answers.flatten = some (fetched answered ⟨file world, env.tmp⟩, []) ∧
      ∀ op ∈ later.head?, ∃ time, op.step time (answered.foldl FileOp.after ⟨file world, env.tmp⟩) = none := by
  obtain ⟨flow, st, answers, s, hserve, hloop, -, hsent⟩ := handleLoop_serve hserves ops segs hne hstream hfits world
  have hhandle : handle env segs world = s := by
    have hmore := hloop []
    rw [List.append_nil] at hmore
    rw [hmore]
    cases flow <;> rfl
  obtain ⟨answered, later, hops, hread, hlater⟩ := read_serve hgunzip hserve []
  rw [List.append_nil] at hread
  exact ⟨answered, later, answers, hops, by rw [hhandle, hsent], hread, hlater⟩

/-! ### A session -/

/-- `{"gzip": true}`. -/
def gzipRequest : Bytes := [0x7B, 0x22, 0x67, 0x7A, 0x69, 0x70, 0x22, 0x3A, 0x20, 0x74, 0x72, 0x75, 0x65, 0x7D]

/-- For one request and one content. -/
def fetchDl : DownloadEnv where
  loadsGzip data := if data = gzipRequest then some true else none
  compress _ content := if content = [0x68, 0x69] then gzipHi else 0 :: content

def fetchEnv : HandlerEnv Str (List Bytes × (Str → Option Bytes)) where
  tmp := diskEnv.tmp
  loads := diskEnv.loads
  decompress := diskEnv.decompress
  sendall := diskEnv.sendall
  writeFile := diskEnv.writeFile
  onData datatype data path world :=
    if datatype = 3 then ((download fetchDl 0 data (world.2 path)).map some, world) else (some none, world)

theorem fetchEnv_serves : Serves fetchEnv fetchDl Prod.fst Prod.snd where
  sendall _ _ := rfl
  sent_sendall _ _ := rfl
  file_sendall _ _ := rfl
  writeFile _ _ _ _ := rfl
  sent_writeFile _ _ _ := rfl
  file_writeFile path data world := diskEnv_works.file_writeFile path data world
  file_writeFile_eq _ _ _ := rfl
  onData _ _ _ := ⟨0, rfl⟩

def gunzipHi (data : Bytes) : Option Bytes := if data = gzipHi then some [0x68, 0x69] else data.tail?

theorem gunzipHi_compress (time : Nat) (content : Bytes) :
    gunzipHi (fetchDl.compress time content) = some content := by
  show gunzipHi (if content = [0x68, 0x69] then gzipHi else 0 :: content) = some content
  split_ifs with hhi
  · rw [hhi]
    rfl
  · rw [gunzipHi, if_neg (by simp [gzipHi])]
    rfl

def fetchPut : Transfer fetchEnv :=
  ⟨['b'], true, [0x68, 0x69], gzipName, gzipHi, gzipTransfer.loads, gzipTransfer.unpacks, gzipTransfer.nameShort,
    gzipTransfer.payloadShort⟩

def fetchName : FileName fetchEnv := ⟨['a'], false, plainName, emptyTransfer.loads, emptyTransfer.nameShort⟩

def fetchGet : Fetch fetchDl := ⟨true, gzipRequest, by decide +kernel, by decide⟩

/-- `hi` is stored and fetched; a file that does not exist is not. -/
def fetchOps : List (FileOp fetchEnv fetchDl) := [.put fetchPut, .get fetchGet, .goto fetchName, .get fetchGet]

/-- The file name in two recv results. -/
def fetchSegs : List Bytes :=
  (wire (commandBody (21, gzipName))).take 4 :: (wire (commandBody (21, gzipName))).drop 4 ::
    ((fetchOps.flatMap FileOp.bodies).map wire).tail

theorem handle_serve_session :
    ∃ flow st answers s, Serve fetchOps ⟨fun _ => none, ['t', 'm', 'p']⟩ flow st answers ∧
      s.world = (answers, st.files) ∧ handle fetchEnv fetchSegs ([], fun _ => none) = s := by
  obtain ⟨flow, st, answers, s, hserve, hloop, hfile, hsent⟩ := handle_serve fetchEnv_serves fetchOps fetchSegs
    (by decide +kernel) (by decide +kernel) (by decide +kernel) ([], fun _ => none)
  refine ⟨flow, st, answers, s, hserve, Prod.ext hsent hfile, ?_⟩
  have hmore := hloop []
  rw [List.append_nil] at hmore
  rw [hmore]
  cases flow <;> rfl

theorem handle_fetched_session :
    ∃ answered later answers, fetchOps = answered ++ later ∧
      (handle fetchEnv fetchSegs ([], fun _ => none)).world.1 = answers ∧
      readAnswers gunzipHi answered answers.flatten =
        some (fetched answered ⟨fun _ => none, ['t', 'm', 'p']⟩, []) := by
  obtain ⟨answered, later, answers, hops, hsent, hread, -⟩ := handle_fetched fetchEnv_serves gunzipHi_compress fetchOps
    fetchSegs (by decide +kernel) (by decide +kernel) (by decide +kernel) ([], fun _ => none)
  exact ⟨answered, later, answers, hops, hsent, hread⟩

end SocketServer.Tcp
