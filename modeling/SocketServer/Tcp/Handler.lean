import SocketServer.Lib.Bytes

/-!
# The TCP handler (`MyTCPHandler` of `protocol.py`)

A connection is the list of what successive `recv(bufsize)` calls return; behind the list the peer has closed.
The handler keeps `(datatotal, data_len)` between two of them (`Reader`) and completes at most one message for
each (`Reader.recv`). A completed message is a command, or file content while `bin_recv_flag` is set; commands
21 to 24 transfer a file, every other one goes to `on_data` of the subclass (`dispatch`).

`struct.unpack("i", ..)` is native; it reads little-endian here, as the protocol description has it.
-/

namespace SocketServer.Tcp

open Bytes

/-! ### Reading messages -/

/-- The local variables `datatotal` and `data_len` of `handle`. -/
structure Reader where
  datatotal : Bytes
  dataLen : Int
  deriving DecidableEq, Repr

/-- No message is in progress. -/
def Reader.idle : Reader := ⟨[], 0⟩

/-- What `handle` makes of one recv result. -/
inductive Received
  /-- The result starts a message with fewer than four bytes. -/
  | tooShort
  /-- The message is still incomplete. -/
  | incomplete (reader : Reader)
  /-- The message is complete. -/
  | message (data : Bytes)
  /-- There are more bytes than `data_len`: all of them are dropped. -/
  | overrun
  deriving DecidableEq, Repr

/-- The comparison of `len(datatotal)` with `data_len`. -/
def compareLength (datatotal : Bytes) (dataLen : Int) : Received :=
  if (datatotal.length : Int) < dataLen then .incomplete ⟨datatotal, dataLen⟩
  else if (datatotal.length : Int) = dataLen then .message datatotal
  else .overrun

/-- One recv result. The first one of a message carries the length of the message. -/
def Reader.recv (r : Reader) (data : Bytes) : Received :=
  if r.dataLen = 0 then
    if data.length < 4 then .tooShort
    else compareLength (r.datatotal ++ data.drop 4) (decodeInt32 .little (data.take 4))
  else compareLength (r.datatotal ++ data) r.dataLen

/-! ### Acting on a message -/

inductive Message
  | command (datatype : Int) (data : Bytes)
  | content (data : Bytes)
  deriving DecidableEq, Repr

/-- The bytes of a message behind its length. -/
def Message.body : Message → Bytes
  | .command datatype data => encodeInt32 .little datatype ++ data
  | .content data => data

/-- What the handler uses and does not define: JSON and gzip, the socket, the disk and the subclass. A state `ω`
stands for everything behind them, and `P` for the values a `filepath` can take. -/
structure HandlerEnv (P ω : Type) where
  /-- `"tmp"`. -/
  tmp : P
  /-- `filepath` and `gzip` of `json.loads(data)`, `none` if one of the calls raises. -/
  loads : Bytes → Option (P × Bool)
  /-- `decompress_gzip`, `none` if it raises. -/
  decompress : Bytes → Option Bytes
  /-- `request.sendall`, `false` if it raises. -/
  sendall : Bytes → ω → Bool × ω
  /-- `open(filepath, "wb")` and `write`, `false` if one of them raises. -/
  writeFile : P → Bytes → ω → Bool × ω
  /-- `on_data`, `none` if it raises. -/
  onData : Int → Bytes → P → ω → Option (Option Bytes) × ω

/-- The attributes of the handler, and a record of what it has done: the messages it has acted on and the
arguments of its `on_data` calls. `gzip` is not set before the first message 21. -/
structure Session (P ω : Type) where
  filepath : P
  gzip : Option Bool
  content : Bytes
  binRecvFlag : Bool
  length : Nat
  bufsize : Nat
  world : ω
  acted : List Message
  calls : List (Int × Bytes)

/-- Does the loop go on, or does an exception or a `break` end it? -/
inductive Flow
  | next
  | stop
  deriving DecidableEq, Repr

variable {P ω : Type} (env : HandlerEnv P ω)

/-- `self.request.sendall(data)` where an exception ends the loop. -/
def reply (data : Bytes) (s : Session P ω) : Flow × Session P ω :=
  match env.sendall data s.world with
  | (true, world) => (.next, { s with world := world })
  | (false, world) => (.stop, { s with world := world })

/-- Message 21: the name of a file. -/
def fileName (data : Bytes) (s : Session P ω) : Flow × Session P ω :=
  match env.loads data with
  | none => (.stop, s)
  | some (filepath, gzip) =>
    reply env [0x32, 0x31, 0x20, 0x6F, 0x6B] { s with filepath := filepath, gzip := some gzip }

/-- Message 22: the length of a file. What follows is content. -/
def fileLength (data : Bytes) (s : Session P ω) : Flow × Session P ω :=
  if data.length < 8 then (.next, s)
  else if data.length ≠ 8 then (.stop, s)
  else
    reply env [0x32, 0x32, 0x20, 0x6F, 0x6B]
      { s with length := decode .little data, content := [], binRecvFlag := true, bufsize := 102400000 }

/-- Message 23: content of a file. -/
def fileContent (data : Bytes) (s : Session P ω) : Flow × Session P ω :=
  let content := s.content ++ data
  if content.length = s.length then
    reply env [0x32, 0x33, 0x20, 0x6F, 0x6B]
      { s with content := content, bufsize := 1024, binRecvFlag := false }
  else if s.length < content.length then
    (.stop, { s with content := content, bufsize := 1024, binRecvFlag := false })
  else (.next, { s with content := content })

/-- Message 24: the content goes to disk; `^$` stands for an empty file. -/
def fileWrite (s : Session P ω) : Flow × Session P ω :=
  match s.gzip with
  | none => (.stop, s)
  | some gzip =>
    match (if gzip then env.decompress s.content else some s.content) with
    | none => (.stop, s)
    | some data =>
      match env.writeFile s.filepath (if data = [0x5E, 0x24] then [] else data) s.world with
      | (false, world) => (.stop, { s with world := world })
      | (true, world) => reply env [0x32, 0x34, 0x20, 0x6F, 0x6B] { s with content := [], world := world }

/-- The answer of `on_data`, sent again if sending fails. -/
def respond (response : Bytes) (world : ω) : ω :=
  match env.sendall response world with
  | (true, world) => world
  | (false, world) => (env.sendall response world).2

/-- Any other command goes to `on_data`. -/
def callOnData (datatype : Int) (data : Bytes) (s : Session P ω) : Flow × Session P ω :=
  let s := { s with calls := s.calls ++ [(datatype, data)] }
  match env.onData datatype data s.filepath s.world with
  | (none, world) => (.stop, { s with world := world })
  | (some none, world) => (.next, { s with world := world })
  | (some (some response), world) =>
    (.next, { s with world := if response = [] then world else respond env response world })

def fileTypes : List Int := [21, 22, 23, 24]

/-- A message whose type is known. -/
def act (datatype : Int) (data : Bytes) (s : Session P ω) : Flow × Session P ω :=
  if datatype = 21 then fileName env data s
  else if datatype = 22 then fileLength env data s
  else if datatype = 23 then fileContent env data s
  else if datatype = 24 then fileWrite env s
  else callOnData env datatype data s

/-- A complete message: content, or a command with its type in front. -/
def dispatch (data : Bytes) (s : Session P ω) : Flow × Session P ω :=
  if s.binRecvFlag then act env 23 data { s with acted := s.acted ++ [.content data] }
  else if data.length < 4 then (.next, s)
  else
    let datatype := decodeInt32 .little (data.take 4)
    act env datatype (data.drop 4) { s with acted := s.acted ++ [.command datatype (data.drop 4)] }

/-! ### The loop -/

/-- One round of the loop: an empty result means that the peer has closed. -/
def handleStep (data : Bytes) (r : Reader) (s : Session P ω) : Flow × Reader × Session P ω :=
  if data = [] then (.stop, r, s)
  else
    match r.recv data with
    | .tooShort => (.stop, r, s)
    | .incomplete r => (.next, r, s)
    | .overrun => (.next, .idle, s)
    | .message data => ((dispatch env data s).1, .idle, (dispatch env data s).2)

/-- The loop, up to the end of the connection. -/
def handleLoop : List Bytes → Reader → Session P ω → Session P ω
  | [], _, s => s
  | data :: segs, r, s =>
    match handleStep env data r s with
    | (.next, r, s) => handleLoop segs r s
    | (.stop, _, s) => s

def setup (world : ω) : Session P ω :=
  ⟨env.tmp, none, [], false, 0, 10240, world, [], []⟩

def handle (segs : List Bytes) (world : ω) : Session P ω := handleLoop env segs .idle (setup env world)

end SocketServer.Tcp
