/-
`HttpConnection::DoRequest` (`http_connection.cpp`) down to the socket (`socket_stream.cpp`, `socket.cpp`).

What the network does is a record (`Net`): the address of a host, how the connection comes about, what the coming
`send` and `recv` calls meet. `Socket::connect` is that of `Socket/Cancel`, on a new socket of the process.

`DoRequest` makes a socket for the address and sends the request through it. It never calls `connect`, and a stream
whose socket is not connected sends nothing: every request to a host that is found ends as a socket error.

- `doRequest_found`: this, for every network.
- `classified_iff`: the outcome is the right one iff the host is not found, or sending over a connection would fail.
- `server_not_reached`: a server that takes the request and answers.
-/
import Mathlib.Tactic
import Sylar.Http.Connection
import Sylar.Socket.Cancel
import Sylar.Uri.Print

namespace Sylar.Http

open Sylar.Core

/-! ## Addresses -/

/-- an `IPAddress`: its family, the text before the port, and the port, a `uint16_t` -/
structure Address where
  family : ℤ
  ip : Bytes
  port : ℕ
deriving DecidableEq, Repr

def Address.setPort (a : Address) (v : ℤ) : Address := { a with port := (v % 65536).toNat }

def Address.toString (a : Address) : Bytes := a.ip ++ ascii ":" ++ decimal a.port

/-- what one `send` on a connected socket meets: it takes so many bytes, if there are as many, or its result is -code
-/
inductive Sent where
  | taken (n : ℕ)
  | fail (code : ℕ)
deriving DecidableEq, Repr

/-- what the network does -/
structure Net where
  /-- `Address::LookupAnyIPAddress` -/
  lookup : Bytes → Option Address
  /-- the process, in which the new socket is number `k` and gets the descriptor `fd` -/
  process : Socket.St
  k : ℕ
  fd : Int32
  connecting : Socket.Connecting
  /-- what the `send` calls meet; behind the last one the peer is gone -/
  sends : List Sent
  recvs : List Recv
  /-- `errno`, and its text -/
  errno : ℕ
  strerror : Bytes

/-- `Uri::createAddress` -/
def createAddress (net : Net) (uri : Uri) : Option Address :=
  (net.lookup uri.host).map fun addr => addr.setPort uri.getPort

/-! ## Sending -/

/-- `Socket::send` -/
def Sock.send (s : Socket.Sock) (sends : List Sent) (length : ℕ) : ℤ × List Sent :=
  if s.isConnected then
    match sends with
    | [] => (-1, [])
    | .taken n :: rest => ((min (min n length) maxRead : ℕ), rest)
    | .fail code :: rest => (-code, rest)
  else (-1, sends)

/-- `SocketStream::write` -/
def Sock.write (s : Socket.Sock) (sends : List Sent) (length : ℕ) : ℤ × List Sent :=
  if !s.isConnected then (-1, sends) else Sock.send s sends length

/-- the loop of `writeFixSize`, with `left` bytes to go -/
def writeFixSizeLoop (s : Socket.Sock) (sends : List Sent) (length : ℕ) (left : ℤ) : ℤ × List Sent :=
  if 0 < left then
    match Sock.write s sends left.toNat with
    | (len, sends') => if len ≤ 0 then (len, sends') else writeFixSizeLoop s sends' length (left - len)
  else (toInt32 length, sends)
termination_by left.toNat

/-- `HttpConnection::sendRequest` -/
def sendRequest (s : Socket.Sock) (sends : List Sent) (req : HttpRequest) : ℤ × List Sent :=
  writeFixSizeLoop s sends req.dump.length (toInt64 req.dump.length)

/-! ## `DoRequest` -/

/-- `HttpResult::Error` -/
inductive HttpError where
  | OK
  | INVALID_URL
  | INVALID_HOST
  | CONNECT_FAILED
  | SEND_CLOSE_BY_PEER
  | SEND_SOCKET_ERROR
  | TIMEOUT
  | CREATE_SOCKET_ERROR
  | POOL_GET_CONNECTION
  | POOL_INVALID_CONNECTION
deriving DecidableEq, Repr

structure HttpResult where
  result : HttpError
  response : Option HttpResponse
  error : Bytes
deriving DecidableEq, Repr

/-- `Socket::CreateTCP`: a socket without a descriptor; `new` does not return null -/
def createTCP (addr : Address) : Option Socket.Sock := some { family := addr.family }

/-- `DoRequest` with the buffer `data`; the timeout is set on the descriptor -1, which fails and changes nothing -/
def doRequest (net : Net) (data : Bytes) (req : HttpRequest) (uri : Uri) (timeout_ms : ℕ) : Except Stop HttpResult :=
  match createAddress net uri with
  | none => .ok ⟨.INVALID_HOST, none, ascii "invalid host: " ++ uri.host⟩
  | some addr =>
    match createTCP addr with
    | none => .ok ⟨.CONNECT_FAILED, none, ascii "connect failed: " ++ addr.toString⟩
    | some sock =>
      let rt := (sendRequest sock net.sends req).1
      if rt = 0 then .ok ⟨.SEND_CLOSE_BY_PEER, none, ascii "send request closed by peer: " ++ addr.toString⟩
      else if rt < 0 then
        .ok ⟨.SEND_SOCKET_ERROR, none,
          ascii "send request socket error errno= " ++ decimal net.errno ++ ascii "errstr=" ++ net.strerror⟩
      else
        match (recvResponse data { recvs := net.recvs, connected := sock.isConnected }).result with
        | .ok rsp => .ok ⟨.OK, some rsp, ascii "ok"⟩
        | .error .null =>
          .ok ⟨.TIMEOUT, none,
            ascii "recv response timeout: " ++ addr.toString ++ ascii "timeout_ms=" ++ decimal timeout_ms⟩
        | .error e => .error e

/-! ## The right outcome -/

/-- `Socket::connect` on the new socket succeeds -/
def Net.Connects (net : Net) (addr : Address) : Prop :=
  (net.process.connect net.k { family := addr.family } net.fd addr.family net.connecting).1 = .bool true

instance (net : Net) (addr : Address) : Decidable (net.Connects addr) := inferInstanceAs (Decidable (_ = _))

/-- the socket behind it -/
def Net.connected (net : Net) (addr : Address) : Socket.Sock :=
  { sock := net.fd, isConnected := true, family := addr.family }

/-- the outcome by what the network does: the lookup, the connection, sending over it, and the response -/
def classify (net : Net) (data : Bytes) (req : HttpRequest) (uri : Uri) :
    Except Stop (HttpError × Option HttpResponse) :=
  match createAddress net uri with
  | none => .ok (.INVALID_HOST, none)
  | some addr =>
    if ¬net.Connects addr then .ok (.CONNECT_FAILED, none)
    else
      let rt := (sendRequest (net.connected addr) net.sends req).1
      if rt = 0 then .ok (.SEND_CLOSE_BY_PEER, none)
      else if rt < 0 then .ok (.SEND_SOCKET_ERROR, none)
      else
        match (recvResponse data { recvs := net.recvs, connected := true }).result with
        | .ok rsp => .ok (.OK, some rsp)
        | .error .null => .ok (.TIMEOUT, none)
        | .error e => .error e

def Classified (net : Net) (data : Bytes) (req : HttpRequest) (uri : Uri) (timeout_ms : ℕ) : Prop :=
  (doRequest net data req uri timeout_ms).map (fun r => (r.result, r.response)) = classify net data req uri

/-! ## What comes out -/

/-- without a connection nothing is sent -/
theorem sendRequest_unconnected {s : Socket.Sock} (hs : s.isConnected = false) (sends : List Sent) {req : HttpRequest}
    (hreq : req.dump.length ≤ maxSize) : sendRequest s sends req = (-1, sends) := by
  have hpos : 0 < req.dump.length := by
    unfold HttpRequest.dump
    simp only [List.length_append]
    have hblank : (ascii " ").length = 1 := by decide
    omega
  have hmax : maxSize = 2 ^ 63 - 1 := rfl
  have hleft : toInt64 req.dump.length = req.dump.length := toInt64_of_lt (by omega) (by omega)
  have hwrite : ∀ n, Sock.write s sends n = (-1, sends) := by
    intro n
    rw [Sock.write, hs]
    rfl
  rw [sendRequest, writeFixSizeLoop, hleft, if_pos (by omega), hwrite]
  rfl

/-- **A host that is found** ends as a socket error, whatever the network does. -/
theorem doRequest_found {net : Net} {uri : Uri} {addr : Address} (haddr : createAddress net uri = some addr)
    (data : Bytes) {req : HttpRequest} (hreq : req.dump.length ≤ maxSize) (timeout_ms : ℕ) :
    doRequest net data req uri timeout_ms = .ok ⟨.SEND_SOCKET_ERROR, none,
      ascii "send request socket error errno= " ++ decimal net.errno ++ ascii "errstr=" ++ net.strerror⟩ := by
  have hsend := sendRequest_unconnected (s := { family := addr.family }) rfl net.sends hreq
  simp only [doRequest, haddr, createTCP, hsend]
  rfl

/-- with an address, the outcome is right iff a connection comes about and sending over it fails -/
theorem classified_found_iff {net : Net} {uri : Uri} {addr : Address} (haddr : createAddress net uri = some addr)
    (data : Bytes) {req : HttpRequest} (hreq : req.dump.length ≤ maxSize) (timeout_ms : ℕ) :
    Classified net data req uri timeout_ms ↔
      net.Connects addr ∧ (sendRequest (net.connected addr) net.sends req).1 < 0 := by
  have hright : Classified net data req uri timeout_ms ↔
      (.ok (.SEND_SOCKET_ERROR, none) : Except Stop _) = classify net data req uri := by
    rw [Classified, doRequest_found haddr data hreq timeout_ms]
    rfl
  rw [hright]
  simp only [classify, haddr]
  by_cases hconn : net.Connects addr
  swap
  · rw [if_pos hconn]
    exact iff_of_false (by simp) (fun h => hconn h.1)
  rw [if_neg (not_not.mpr hconn)]
  by_cases hzero : (sendRequest (net.connected addr) net.sends req).1 = 0
  · rw [if_pos hzero]
    exact iff_of_false (by simp) (fun h => absurd h.2 (by omega))
  rw [if_neg hzero]
  by_cases hneg : (sendRequest (net.connected addr) net.sends req).1 < 0
  · rw [if_pos hneg]
    exact iff_of_true rfl ⟨hconn, hneg⟩
  rw [if_neg hneg]
  refine iff_of_false ?_ (fun h => hneg h.2)
  cases (recvResponse data { recvs := net.recvs, connected := true }).result with
  | ok rsp => simp
  | error e => cases e <;> simp

/-- **The outcome of `DoRequest`.** For every network, request and `Uri`: the outcome is the one that lookup,
connection, sending and response call for iff the host is not found, or a connection comes about and sending over it
fails. -/
theorem classified_iff (net : Net) (data : Bytes) (req : HttpRequest) (hreq : req.dump.length ≤ maxSize) (uri : Uri)
    (timeout_ms : ℕ) : Classified net data req uri timeout_ms ↔
      ∀ addr, createAddress net uri = some addr →
        net.Connects addr ∧ (sendRequest (net.connected addr) net.sends req).1 < 0 := by
  cases haddr : createAddress net uri with
  | none =>
    have hnone : Classified net data req uri timeout_ms := by
      simp only [Classified, doRequest, classify, haddr]
      rfl
    refine iff_of_true hnone ?_
    intro addr h
    cases h
  | some addr =>
    rw [classified_found_iff haddr data hreq timeout_ms]
    constructor
    · intro h a ha
      cases ha
      exact h
    · intro h
      exact h addr rfl

/-- one host, a process that has just started, and a connection that comes about -/
def oneHost (sends : List Sent) (recvs : List Recv) : Net where
  lookup host := if host = ascii "sylar" then some ⟨2, ascii "10.0.0.1", 0⟩ else none
  process := Socket.start
  k := 0
  fd := 5
  connecting := ⟨true, none⟩
  sends := sends
  recvs := recvs
  errno := 0
  strerror := ascii "Success"

def sylarUri : Uri := { host := ascii "sylar", port := 80 }

/-- a peer that is gone before anything is sent -/
theorem classified_iff_gone :
    Classified (oneHost [] []) (List.replicate 64 0) {} sylarUri 1000 ↔
      ∀ addr, createAddress (oneHost [] []) sylarUri = some addr →
        (oneHost [] []).Connects addr ∧ (sendRequest ((oneHost [] []).connected addr) (oneHost [] []).sends {}).1 < 0 :=
  classified_iff (oneHost [] []) (List.replicate 64 0) {} (by decide) sylarUri 1000

/-- **A server that takes the request** and answers is reported as a socket error. -/
theorem server_not_reached : ¬Classified (oneHost [.taken 4096] [.data (ascii "HTTP/1.1 200 OK\r\n\r\n")])
    (List.replicate 64 0) {} sylarUri 1000 := by
  have hlen : ({} : HttpRequest).dump.length = 37 := by decide
  have haddr : createAddress (oneHost [.taken 4096] [.data (ascii "HTTP/1.1 200 OK\r\n\r\n")]) sylarUri =
      some ⟨2, ascii "10.0.0.1", 80⟩ := by decide
  rw [classified_found_iff haddr _ (by rw [hlen]; decide)]
  rintro ⟨-, hneg⟩
  have hwrite : ∀ recvs, Sock.write ((oneHost [.taken 4096] recvs).connected ⟨2, ascii "10.0.0.1", 80⟩)
      (oneHost [.taken 4096] recvs).sends (toInt64 (37 : ℕ)).toNat = (37, []) := fun _ => rfl
  rw [sendRequest, hlen, writeFixSizeLoop, if_pos (by decide), hwrite] at hneg
  -- all is sent in one call, and the loop ends
  dsimp only at hneg
  rw [if_neg (by decide), writeFixSizeLoop, if_neg (by decide)] at hneg
  exact absurd hneg (by decide)

end Sylar.Http
