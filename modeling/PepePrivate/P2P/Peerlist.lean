import PepePrivate.Library.OrderedIndex

/-! nodetool::peerlist_manager: the white list of peers this node has talked to, the gray list
of peers it has heard of, and the anchor list of outgoing connections, each a multi-index
container unique on the address and ordered by time. -/

namespace PepePrivate.P2P

open OrderedIndex

/-- What the peer list asks of an epee::net_utils::network_address. -/
class NetworkAddress (α : Type) where
  isLoopback : α → Bool
  isLocal : α → Bool

/-! ## epee::net_utils::ipv4_network_address -/

/-- is_ip_local: 10/8, 192.168/16 and 172.16/12, the address in network order, its first byte
lowest. -/
def isIpLocal (ip : UInt32) : Bool :=
  if (ip ||| 0xffffff00) = 0xffffff0a then true
  else if (ip ||| 0xffff0000) = 0xffffa8c0 then true
  else if (ip ||| 0xffffff00) = 0xffffffac then
    let secondNum := (ip >>> 8) &&& 0xff
    secondNum ≥ 16 && secondNum ≤ 31
  else false

/-- is_ip_loopback: 127/8. -/
def isIpLoopback (ip : UInt32) : Bool := (ip ||| 0xffffff00) = 0xffffff7f

structure Ipv4NetworkAddress where
  ip : UInt32
  port : UInt16
deriving DecidableEq, Repr

instance : NetworkAddress Ipv4NetworkAddress where
  isLoopback a := isIpLoopback a.ip
  isLocal a := isIpLocal a.ip

/-! ## The lists -/

def p2pLocalWhitePeerlistLimit : Nat := 1000

def p2pLocalGrayPeerlistLimit : Nat := 5000

def p2pDefaultPeersInHandshake : UInt32 := 250

/-- peerlist_entry; last_seen is an int64_t the list only compares. -/
structure PeerlistEntry (α : Type) where
  adr : α
  id : UInt64
  lastSeen : Int
  pruningSeed : UInt32
  rpcPort : UInt16
  rpcCreditsPerHash : UInt32
deriving DecidableEq, Repr

structure AnchorPeerlistEntry (α : Type) where
  adr : α
  id : UInt64
  firstSeen : Int
deriving DecidableEq, Repr

/-- peers_indexed: unique by adr, ordered by last_seen. -/
abbrev PeersIndexed (α : Type) := Container (PeerlistEntry.adr (α := α)) PeerlistEntry.lastSeen

/-- anchor_peers_indexed: unique by adr, ordered by first_seen. -/
abbrev AnchorPeersIndexed (α : Type) :=
  Container (AnchorPeerlistEntry.adr (α := α)) AnchorPeerlistEntry.firstSeen

/-- peerlist_types: the lists as a peerlist file holds them. -/
structure PeerlistTypes (α : Type) where
  white : List (PeerlistEntry α)
  gray : List (PeerlistEntry α)
  anchor : List (AnchorPeerlistEntry α)

structure PeerlistManager (α : Type) where
  allowLocalIp : Bool
  peersGray : PeersIndexed α
  peersWhite : PeersIndexed α
  peersAnchor : AnchorPeersIndexed α

namespace PeerlistManager

variable {α : Type} [DecidableEq α] [NetworkAddress α]

def isHostAllowed (m : PeerlistManager α) (address : α) : Bool :=
  -- never allow loopback ip
  if NetworkAddress.isLoopback address then false
  else if !m.allowLocalIp && NetworkAddress.isLocal address then false
  else true

def trimGrayPeerlist (m : PeerlistManager α) : PeerlistManager α :=
  { m with peersGray := m.peersGray.trim p2pLocalGrayPeerlistLimit }

/-- append_with_peer_white: a new address goes into the white list, which is trimmed (the
insert and trim_white_peerlist of upsert); a known one has its entry replaced; either way the
address leaves the gray list. -/
def appendWithPeerWhite (m : PeerlistManager α) (ple : PeerlistEntry α) : PeerlistManager α :=
  if !m.isHostAllowed ple.adr then m
  else
    { m with
      peersWhite := m.peersWhite.upsert ple p2pLocalWhitePeerlistLimit
      peersGray := m.peersGray.eraseId ple.adr }

/-- append_with_peer_gray: nothing for an address of the white list; otherwise as for the white
list, without touching it. -/
def appendWithPeerGray (m : PeerlistManager α) (ple : PeerlistEntry α) : PeerlistManager α :=
  if !m.isHostAllowed ple.adr then m
  else if (m.peersWhite.find ple.adr).isSome then m
  else { m with peersGray := m.peersGray.upsert ple p2pLocalGrayPeerlistLimit }

def mergePeerlist (m : PeerlistManager α) (outerBs : List (PeerlistEntry α)) : PeerlistManager α :=
  (outerBs.foldl appendWithPeerGray m).trimGrayPeerlist

/-- set_peer_just_seen: the peer, seen at time now, into the white list. -/
def setPeerJustSeen (m : PeerlistManager α) (peer : UInt64) (addr : α) (pruningSeed : UInt32)
    (rpcPort : UInt16) (rpcCreditsPerHash : UInt32) (now : Int) : PeerlistManager α :=
  m.appendWithPeerWhite
    { adr := addr, id := peer, lastSeen := now, pruningSeed := pruningSeed, rpcPort := rpcPort,
      rpcCreditsPerHash := rpcCreditsPerHash }

def appendWithPeerAnchor (m : PeerlistManager α) (ple : AnchorPeerlistEntry α) : PeerlistManager α :=
  match m.peersAnchor.find ple.adr with
  | none => { m with peersAnchor := m.peersAnchor.insert ple }
  | some _ => m

def removeFromPeerWhite (m : PeerlistManager α) (pe : PeerlistEntry α) : PeerlistManager α :=
  { m with peersWhite := m.peersWhite.eraseId pe.adr }

def removeFromPeerGray (m : PeerlistManager α) (pe : PeerlistEntry α) : PeerlistManager α :=
  { m with peersGray := m.peersGray.eraseId pe.adr }

def removeFromPeerAnchor (m : PeerlistManager α) (addr : α) : PeerlistManager α :=
  { m with peersAnchor := m.peersAnchor.eraseId addr }

/-- get_and_empty_anchor_peerlist: the anchors in first_seen order after what apl held. -/
def getAndEmptyAnchorPeerlist (m : PeerlistManager α) (apl : List (AnchorPeerlistEntry α)) :
    List (AnchorPeerlistEntry α) × PeerlistManager α :=
  (apl ++ m.peersAnchor.elems, { m with peersAnchor := Container.empty })

/-- get_white_peer_by_index: the i-th entry from the most recently seen. -/
def getWhitePeerByIndex (m : PeerlistManager α) (i : Nat) : Option (PeerlistEntry α) :=
  if i ≥ m.peersWhite.size then none else m.peersWhite.elems[m.peersWhite.size - 1 - i]?

def getGrayPeerByIndex (m : PeerlistManager α) (i : Nat) : Option (PeerlistEntry α) :=
  if i ≥ m.peersGray.size then none else m.peersGray.elems[m.peersGray.size - 1 - i]?

/-- get_peerlist_head: the white entries from the most recently seen, depth of them; to
anonymize, all of them, shuffled (shuffle stands for std::shuffle), cut to depth, with last_seen
cleared. The entries go after what bsHead held. -/
def getPeerlistHead (m : PeerlistManager α) (bsHead : List (PeerlistEntry α)) (anonymize : Bool)
    (depth : UInt32) (shuffle : List (PeerlistEntry α) → List (PeerlistEntry α)) :
    List (PeerlistEntry α) :=
  let pickDepth : UInt32 := if anonymize then m.peersWhite.size.toUInt32 else depth
  let bsHead := bsHead ++ m.peersWhite.elems.reverse.take pickDepth.toNat
  if anonymize then
    let bsHead := shuffle bsHead
    let bsHead := if bsHead.length > depth.toNat then bsHead.take depth.toNat else bsHead
    bsHead.map fun e => { e with lastSeen := 0 }
  else bsHead

/-- add_peers: the range insert of a multi-index container, which skips a taken address. -/
def addPeers {β ι κ : Type} [DecidableEq ι] [LinearOrder κ] {adr : β → ι} {key : β → κ}
    (dest : Container adr key) (src : List β) : Container adr key :=
  src.foldl Container.insert dest

/-- init: only into empty lists; none where it returns false. -/
def init (m : PeerlistManager α) (peers : PeerlistTypes α) (allowLocalIp : Bool) :
    Option (PeerlistManager α) :=
  if m.peersWhite.elems ≠ [] ∨ m.peersGray.elems ≠ [] ∨ m.peersAnchor.elems ≠ [] then none
  else some
    { allowLocalIp := allowLocalIp
      peersWhite := addPeers m.peersWhite peers.white
      peersGray := addPeers m.peersGray peers.gray
      peersAnchor := addPeers m.peersAnchor peers.anchor }

end PeerlistManager

/-- The calls that change a peer list. -/
inductive PeerlistOp (α : Type)
  | appendWithPeerWhite (ple : PeerlistEntry α)
  | appendWithPeerGray (ple : PeerlistEntry α)
  | mergePeerlist (outerBs : List (PeerlistEntry α))
  | setPeerJustSeen (peer : UInt64) (addr : α) (pruningSeed : UInt32) (rpcPort : UInt16)
      (rpcCreditsPerHash : UInt32) (now : Int)
  | removeFromPeerWhite (pe : PeerlistEntry α)
  | removeFromPeerGray (pe : PeerlistEntry α)
  | appendWithPeerAnchor (ple : AnchorPeerlistEntry α)
  | removeFromPeerAnchor (addr : α)
  | getAndEmptyAnchorPeerlist

namespace PeerlistManager

variable {α : Type} [DecidableEq α] [NetworkAddress α]

def step (m : PeerlistManager α) : PeerlistOp α → PeerlistManager α
  | .appendWithPeerWhite ple => m.appendWithPeerWhite ple
  | .appendWithPeerGray ple => m.appendWithPeerGray ple
  | .mergePeerlist outerBs => m.mergePeerlist outerBs
  | .setPeerJustSeen peer addr pruningSeed rpcPort rpcCreditsPerHash now =>
    m.setPeerJustSeen peer addr pruningSeed rpcPort rpcCreditsPerHash now
  | .removeFromPeerWhite pe => m.removeFromPeerWhite pe
  | .removeFromPeerGray pe => m.removeFromPeerGray pe
  | .appendWithPeerAnchor ple => m.appendWithPeerAnchor ple
  | .removeFromPeerAnchor addr => m.removeFromPeerAnchor addr
  | .getAndEmptyAnchorPeerlist => (m.getAndEmptyAnchorPeerlist []).2

def run (m : PeerlistManager α) (ops : List (PeerlistOp α)) : PeerlistManager α :=
  ops.foldl step m

end PeerlistManager

end PepePrivate.P2P
