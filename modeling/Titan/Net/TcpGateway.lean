import Titan.Book.Matcher
import Titan.Io.Journaler
import Titan.Data.Framing
import Titan.Data.LittleEndian
import Titan.Data.Transition

namespace Titan

open Framing

def Order.ofBytes (data : List UInt8) : Order :=
  Order.ofWords fun j => UInt64.ofNat (LittleEndian.decode ((data.drop (8 * j)).take 8))

/-- The gate of `submit` that turns an order away by its price. -/
def refusedAtGate (o : Order) : Bool := o.type != OrderType.CANCEL && !isAdmissible o

theorem submit_at_gate {o : Order} (refused : refusedAtGate o = true) (b : OrderBook) :
    Matcher.submit b o = some (b, [Matcher.rejectEvent o], { residual := o.remaining, rejected := true }) := by
  rw [refusedAtGate, Bool.and_eq_true, bne_iff_ne, Bool.not_eq_true'] at refused
  rw [Matcher.submit, if_neg refused.1, if_pos refused.2]
  rfl

theorem refusedAtGate_eq (o : Order) : refusedAtGate o = !isAdmissible o := by
  cases cancel : o.type == OrderType.CANCEL with
  | true => simp [refusedAtGate, isAdmissible, bne, cancel]
  | false => simp [refusedAtGate, bne, cancel]

/-- A partial order carried between two calls of `recv`: its first `filled` bytes have arrived. -/
structure Conn where
  pending : List UInt8 := List.replicate ORDER_BYTES 0
  filled : Nat := 0
  deriving DecidableEq, Repr

namespace Conn

def memcpy (dest : List UInt8) (off : Nat) (data : List UInt8) : List UInt8 :=
  dest.take off ++ data ++ dest.drop (off + data.length)

def wholeOrders (data : List UInt8) (off : Nat) : List (List UInt8) × Nat :=
  if data.length - off ≥ ORDER_BYTES then
    let (later, stop) := wholeOrders data (off + ORDER_BYTES)
    ((data.drop off).take ORDER_BYTES :: later, stop)
  else ([], off)
termination_by data.length - off
decreasing_by
  simp only [ORDER_BYTES] at *
  omega

def parseWhole (c : Conn) (data : List UInt8) (off : Nat) : Conn × List (List UInt8) :=
  let (orders, off) := wholeOrders data off
  let rem := data.length - off
  if rem > 0 then ({ pending := memcpy c.pending 0 (data.drop off), filled := rem }, orders) else (c, orders)

def parseChunk (c : Conn) (data : List UInt8) : Conn × List (List UInt8) :=
  if c.filled > 0 then
    let need := ORDER_BYTES - c.filled
    let take := if data.length < need then data.length else need
    let c := { pending := memcpy c.pending c.filled (data.take take), filled := c.filled + take }
    if c.filled < ORDER_BYTES then (c, [])
    else
      let (after, orders) := parseWhole { c with filled := 0 } data take
      (after, c.pending :: orders)
  else parseWhole c data 0

/-- What a connection carries once these bytes have come in. -/
structure Carries (c : Conn) (received : List UInt8) : Prop where
  size : c.pending.length = ORDER_BYTES
  filled : c.filled = received.length % ORDER_BYTES
  pending : c.pending.take c.filled = rest ORDER_BYTES received

variable {c : Conn} {received data : List UInt8} {off : Nat}

theorem wholeOrders_spec (data : List UInt8) (off : Nat) :
    (wholeOrders data off).1 = blocks ORDER_BYTES (data.drop off) ∧
      data.drop (wholeOrders data off).2 = rest ORDER_BYTES (data.drop off) := by
  by_cases more : data.length - off ≥ ORDER_BYTES
  · have long : ORDER_BYTES ≤ (data.drop off).length := by rwa [List.length_drop]
    rcases wholeOrders_spec data (off + ORDER_BYTES) with ⟨orders, left⟩
    rw [wholeOrders, if_pos more, blocks_of_long (by decide) long, rest_of_long (by decide) long, List.drop_drop]
    exact ⟨congrArg _ orders, left⟩
  · have short : (data.drop off).length < ORDER_BYTES := by
      rw [List.length_drop]
      omega
    rw [wholeOrders, if_neg more, blocks_of_short short, rest_of_short short]
    exact ⟨rfl, rfl⟩
termination_by data.length - off
decreasing_by
  simp only [ORDER_BYTES] at *
  omega

theorem memcpy_length (dest data : List UInt8) (fits : off + data.length ≤ dest.length) :
    (memcpy dest off data).length = dest.length := by
  simp only [memcpy, List.length_append, List.length_take, List.length_drop]
  omega

theorem take_memcpy (dest data : List UInt8) (fits : off ≤ dest.length) :
    (memcpy dest off data).take (off + data.length) = dest.take off ++ data := by
  apply List.take_left'
  rw [List.length_append, List.length_take, Nat.min_eq_left fits]

theorem Carries.of_rest {received' : List UInt8} (carries : Carries c received)
    (same : rest ORDER_BYTES received = rest ORDER_BYTES received') : Carries c received' := by
  refine ⟨carries.size, ?_, carries.pending.trans same⟩
  rw [carries.filled, ← rest_length, same, rest_length]

theorem parseWhole_spec (size : c.pending.length = ORDER_BYTES) (none : c.filled = 0) (data : List UInt8) (off : Nat) :
    (c.parseWhole data off).2 = blocks ORDER_BYTES (data.drop off) ∧ Carries (c.parseWhole data off).1 (data.drop off) := by
  rcases wholeOrders_spec data off with ⟨orders, left⟩
  have carried : data.length - (wholeOrders data off).2 = (data.drop off).length % ORDER_BYTES := by
    rw [← rest_length, ← left, List.length_drop]
  have short : (data.drop off).length % ORDER_BYTES < ORDER_BYTES := Nat.mod_lt _ (by decide)
  simp only [parseWhole]
  split
  · refine ⟨orders, ?_, carried, ?_⟩
    · have fits : 0 + (data.drop (wholeOrders data off).2).length ≤ c.pending.length := by
        rw [size, List.length_drop]
        omega
      exact (memcpy_length _ _ fits).trans size
    · have copied := take_memcpy c.pending (data.drop (wholeOrders data off).2) (Nat.zero_le _)
      rw [List.length_drop, Nat.zero_add, List.take_zero, List.nil_append] at copied
      exact copied.trans left
  · have nothing : (data.drop off).length % ORDER_BYTES = 0 := by omega
    refine ⟨orders, size, none.trans nothing.symm, ?_⟩
    rw [none, List.take_zero]
    exact (List.eq_nil_of_length_eq_zero ((rest_length _ _).trans nothing)).symm

theorem parseChunk_spec (carries : Carries c received) (data : List UInt8) :
    blocks ORDER_BYTES (received ++ data) = blocks ORDER_BYTES received ++ (c.parseChunk data).2 ∧
      Carries (c.parseChunk data).1 (received ++ data) := by
  rcases append (n := ORDER_BYTES) (by decide) received data with ⟨cut, left⟩
  have carried : (rest ORDER_BYTES received).length = c.filled := (rest_length _ _).trans carries.filled.symm
  have short : c.filled < ORDER_BYTES := carries.filled ▸ Nat.mod_lt _ (by decide)
  have pending := carries.pending
  have size := carries.size
  rw [cut]
  generalize rest ORDER_BYTES received = fragment at carried pending left
  suffices parsed : (c.parseChunk data).2 = blocks ORDER_BYTES (fragment ++ data) ∧
      Carries (c.parseChunk data).1 (fragment ++ data) from
    ⟨by rw [parsed.1], parsed.2.of_rest left.symm⟩
  rw [parseChunk]
  by_cases some : c.filled > 0
  · rw [if_pos some]
    by_cases few : data.length < ORDER_BYTES - c.filled
    · have incomplete : c.filled + data.length < ORDER_BYTES := by omega
      have whole : (fragment ++ data).length < ORDER_BYTES := by
        rw [List.length_append]
        omega
      simp only [if_pos few, if_pos incomplete, List.take_length]
      refine ⟨(blocks_of_short whole).symm, ?_, ?_, ?_⟩
      · exact (memcpy_length _ _ (by omega)).trans size
      · rw [List.length_append, carried, Nat.mod_eq_of_lt incomplete]
      · rw [take_memcpy _ _ (by omega), pending, rest_of_short whole]
    · have complete : ¬c.filled + (ORDER_BYTES - c.filled) < ORDER_BYTES := by omega
      have long : ORDER_BYTES ≤ (fragment ++ data).length := by
        rw [List.length_append]
        omega
      have taken : (data.take (ORDER_BYTES - c.filled)).length = ORDER_BYTES - c.filled := by
        rw [List.length_take]
        omega
      have full : (memcpy c.pending c.filled (data.take (ORDER_BYTES - c.filled))).length = ORDER_BYTES :=
        (memcpy_length _ _ (by omega)).trans size
      have finished : memcpy c.pending c.filled (data.take (ORDER_BYTES - c.filled)) = (fragment ++ data).take ORDER_BYTES := by
        have copied := take_memcpy c.pending (data.take (ORDER_BYTES - c.filled)) (show c.filled ≤ _ by omega)
        have all : fragment.take ORDER_BYTES = fragment := List.take_of_length_le (by omega)
        rw [pending, taken, List.take_of_length_le (by omega)] at copied
        rw [copied, List.take_append, carried, all]
      have behind : (fragment ++ data).drop ORDER_BYTES = data.drop (ORDER_BYTES - c.filled) := by
        rw [List.drop_append, carried, List.drop_eq_nil_of_le (by omega), List.nil_append]
      simp only [if_neg few, if_neg complete]
      rcases parseWhole_spec (c := { pending := memcpy c.pending c.filled (data.take (ORDER_BYTES - c.filled)), filled := 0 })
        full rfl data (ORDER_BYTES - c.filled) with ⟨orders, carries'⟩
      rw [blocks_of_long (by decide) long, behind]
      refine ⟨?_, carries'.of_rest ?_⟩
      · rw [orders]
        exact congrArg (· :: _) finished
      · rw [rest_of_long (by decide) long, behind]
  · have none : c.filled = 0 := by omega
    rw [none] at carried
    rw [if_neg some, List.eq_nil_of_length_eq_zero carried]
    exact parseWhole_spec size none data 0

end Conn

def READ_BUF : Nat := 4096

/-- The gateway, `inbound` being the orders it has published, each as its 40 bytes. The fields
    from `accepted` on are history: connections are numbered as they are accepted, `serial` is the
    number a descriptor stands for, and `pushes` tells whose bytes an order was. -/
structure TcpGateway where
  conns : Nat → Option Conn
  inbound : List (List UInt8)
  rejected : UInt64
  accepted : Nat
  serial : Nat → Nat
  received : Nat → List UInt8
  pushes : List (Nat × List UInt8)

namespace TcpGateway

def create : TcpGateway where
  conns := fun _ => none
  inbound := []
  rejected := 0
  accepted := 0
  serial := fun _ => 0
  received := fun _ => []
  pushes := []

/-- The ring takes the order in the end; what the boundary check finds is only counted. -/
def push (s : TcpGateway) (k : Nat) (o : List UInt8) : TcpGateway :=
  { s with
    inbound := s.inbound ++ [o]
    rejected := if isAdmissible (Order.ofBytes o) = false then s.rejected + 1 else s.rejected
    pushes := s.pushes ++ [(k, o)] }

def receive (s : TcpGateway) (fd : Nat) (c : Conn) (data : List UInt8) : TcpGateway :=
  let (c, orders) := c.parseChunk data
  let k := s.serial fd
  let s := { s with
    conns := Function.update s.conns fd (some c)
    received := Function.update s.received k (s.received k ++ data) }
  orders.foldl (push · k) s

def closeConn (s : TcpGateway) (fd : Nat) : TcpGateway := { s with conns := Function.update s.conns fd none }

inductive Recv
  | bytes (data : List UInt8)
  | fin
  | wouldBlock
  | interrupted
  | failed

/-- The loop of `handle_conn`, with what the calls of `recv` return in turn. `none`: there is no
    such sequence of returns. -/
def drain (fd : Nat) : List Recv → Conn → TcpGateway → Option TcpGateway
  | [], _, _ => none
  | .bytes data :: rest, c, s =>
    if 1 ≤ data.length ∧ data.length ≤ READ_BUF then drain fd rest (c.parseChunk data).1 (s.receive fd c data)
    else none
  | .fin :: _, _, s => some (s.closeConn fd)
  | .wouldBlock :: _, _, s => some s
  | .interrupted :: rest, c, s => drain fd rest c s
  | .failed :: _, _, s => some (s.closeConn fd)

def handleConn (s : TcpGateway) (fd : Nat) (hangup : Bool) (returns : List Recv) : Option TcpGateway :=
  if hangup then some (s.closeConn fd)
  else
    match s.conns fd with
    | none => some s
    | some c => drain fd returns c s

def emplace (s : TcpGateway) (fd : Nat) : TcpGateway :=
  { s with
    conns := Function.update s.conns fd (some {})
    accepted := s.accepted + 1
    serial := Function.update s.serial fd s.accepted }

/-- What a call of `accept4` can return; a new descriptor may fail to be armed. -/
inductive Accept
  | connected (fd : Nat) (armed : Bool)
  | wouldBlock
  | interrupted
  | failed

/-- The kernel hands out a descriptor that is not open. -/
def acceptLoop : List Accept → TcpGateway → Option TcpGateway
  | [], _ => none
  | .connected fd armed :: rest, s =>
    if s.conns fd = none then
      if armed then acceptLoop rest (s.emplace fd) else acceptLoop rest s
    else none
  | .wouldBlock :: _, s => some s
  | .interrupted :: rest, s => acceptLoop rest s
  | .failed :: _, s => some s

inductive Event
  | listening (accepts : List Accept)
  | ready (fd : Nat) (hangup : Bool) (returns : List Recv)

def step : Event → TcpGateway → Option (TcpGateway × Unit)
  | .listening accepts, s => (acceptLoop accepts s).map (·, ())
  | .ready fd hangup returns, s => (s.handleConn fd hangup returns).map (·, ())

def ordersOf (s : TcpGateway) (k : Nat) : List (List UInt8) := (s.pushes.filter fun push => push.1 == k).map Prod.snd

def Closed (s : TcpGateway) (k : Nat) : Prop := k < s.accepted ∧ ∀ fd, s.conns fd ≠ none → s.serial fd ≠ k

structure Framed (s : TcpGateway) : Prop where
  published : s.inbound = s.pushes.map Prod.snd
  orders : ∀ k, s.ordersOf k = blocks ORDER_BYTES (s.received k)
  carries : ∀ fd c, s.conns fd = some c → c.Carries (s.received (s.serial fd))
  numbered : ∀ fd, s.conns fd ≠ none → s.serial fd < s.accepted
  apart : ∀ fd fd', s.conns fd ≠ none → s.conns fd' ≠ none → s.serial fd = s.serial fd' → fd = fd'
  unheard : ∀ k, s.accepted ≤ k → s.received k = []
  counted : s.rejected = UInt64.ofNat (s.inbound.countP fun o => refusedAtGate (Order.ofBytes o))

variable {s s' : TcpGateway} {fd : Nat} {c : Conn}

theorem create_framed : create.Framed := by
  constructor
  · rfl
  · intro k
    exact (blocks_of_short (show ([] : List UInt8).length < ORDER_BYTES by decide)).symm
  · intro fd c open'
    cases open'
  · intro fd open'
    exact absurd rfl open'
  · intro fd fd' open'
    exact absurd rfl open'
  · intro k _
    rfl
  · rfl

theorem foldl_push (orders : List (List UInt8)) (s : TcpGateway) (k : Nat) :
    orders.foldl (push · k) s = { s with
      inbound := s.inbound ++ orders
      rejected := s.rejected + UInt64.ofNat (orders.countP fun o => refusedAtGate (Order.ofBytes o))
      pushes := s.pushes ++ orders.map (k, ·) } := by
  induction orders generalizing s with
  | nil => simp
  | cons o rest ih =>
    rw [List.foldl_cons, ih, push, List.countP_cons, refusedAtGate_eq]
    cases isAdmissible (Order.ofBytes o) with
    | true => simp
    | false => simp [UInt64.add_assoc, UInt64.add_comm]

def Later (s s' : TcpGateway) : Prop :=
  ∀ k, s.Closed k → s'.Closed k ∧ s'.received k = s.received k ∧ s'.ordersOf k = s.ordersOf k

theorem Later.refl (s : TcpGateway) : Later s s := fun _ closed => ⟨closed, rfl, rfl⟩

theorem Later.trans {s'' : TcpGateway} (first : Later s s') (second : Later s' s'') : Later s s'' := by
  intro k closed
  rcases first k closed with ⟨closed', heard, pushed⟩
  rcases second k closed' with ⟨closed'', heard', pushed'⟩
  exact ⟨closed'', heard'.trans heard, pushed'.trans pushed⟩

theorem receive_eq (s : TcpGateway) (fd : Nat) (c : Conn) (data : List UInt8) :
    s.receive fd c data = { s with
      conns := Function.update s.conns fd (some (c.parseChunk data).1)
      received := Function.update s.received (s.serial fd) (s.received (s.serial fd) ++ data)
      inbound := s.inbound ++ (c.parseChunk data).2
      rejected := s.rejected + UInt64.ofNat ((c.parseChunk data).2.countP fun o => refusedAtGate (Order.ofBytes o))
      pushes := s.pushes ++ (c.parseChunk data).2.map (s.serial fd, ·) } := foldl_push _ _ _

theorem receive_conns (s : TcpGateway) (fd : Nat) (c : Conn) (data : List UInt8) :
    (s.receive fd c data).conns = Function.update s.conns fd (some (c.parseChunk data).1) := by rw [receive_eq]

theorem receive_open (s : TcpGateway) {fd : Nat} {c : Conn} (data : List UInt8) (here : s.conns fd = some c) (fd' : Nat) :
    (s.receive fd c data).conns fd' ≠ none ↔ s.conns fd' ≠ none := by
  rw [receive_conns]
  by_cases same : fd' = fd
  · subst same
    simp [here]
  · simp [Function.update_of_ne same]

theorem receive_ordersOf (s : TcpGateway) (fd : Nat) (c : Conn) (data : List UInt8) (k : Nat) :
    (s.receive fd c data).ordersOf k = s.ordersOf k ++ if s.serial fd = k then (c.parseChunk data).2 else [] := by
  rw [receive_eq, ordersOf, ordersOf, List.filter_append, List.map_append]
  congr 1
  by_cases same : s.serial fd = k
  · rw [if_pos same, List.filter_eq_self.mpr, List.map_map]
    · exact List.map_id _
    · intro push member
      rcases List.mem_map.mp member with ⟨o, -, rfl⟩
      exact beq_iff_eq.mpr same
  · rw [if_neg same, List.filter_eq_nil_iff.mpr, List.map_nil]
    intro push member
    rcases List.mem_map.mp member with ⟨o, -, rfl⟩
    exact fun equal => same (beq_iff_eq.mp equal)

theorem receive_framed (framed : s.Framed) (here : s.conns fd = some c) (data : List UInt8) :
    (s.receive fd c data).Framed ∧ Later s (s.receive fd c data) := by
  rcases Conn.parseChunk_spec (framed.carries fd c here) data with ⟨cut, carried⟩
  have live : s.conns fd ≠ none := by simp [here]
  have opened := receive_open s data here
  have pushed := receive_ordersOf s fd c data
  have heard : (s.receive fd c data).received =
      Function.update s.received (s.serial fd) (s.received (s.serial fd) ++ data) := by rw [receive_eq]
  have serial : (s.receive fd c data).serial = s.serial := by rw [receive_eq]
  have accepted : (s.receive fd c data).accepted = s.accepted := by rw [receive_eq]
  constructor
  · constructor
    · rw [receive_eq, List.map_append, ← framed.published, List.map_map]
      exact congrArg (s.inbound ++ ·) (List.map_id _).symm
    · intro k
      rw [pushed, heard, framed.orders k]
      by_cases same : s.serial fd = k
      · subst same
        rw [if_pos rfl, Function.update_self, cut]
      · rw [if_neg same, List.append_nil, Function.update_of_ne (Ne.symm same)]
    · intro fd' c' there
      rw [serial, heard]
      by_cases same : fd' = fd
      · subst same
        rw [receive_conns, Function.update_self] at there
        cases there
        rwa [Function.update_self]
      · rw [receive_conns, Function.update_of_ne same] at there
        have other : s.serial fd' ≠ s.serial fd := fun equal => same (framed.apart fd' fd (by simp [there]) live equal)
        rw [Function.update_of_ne other]
        exact framed.carries fd' c' there
    · intro fd' there
      rw [serial, accepted]
      exact framed.numbered fd' ((opened fd').mp there)
    · intro fd₁ fd₂ first second
      rw [serial]
      exact framed.apart fd₁ fd₂ ((opened fd₁).mp first) ((opened fd₂).mp second)
    · intro k high
      rw [accepted] at high
      have other : k ≠ s.serial fd := by
        have low := framed.numbered fd live
        omega
      rw [heard, Function.update_of_ne other]
      exact framed.unheard k high
    · rw [receive_eq, List.countP_append, UInt64.ofNat_add, ← framed.counted]
  · intro k closed
    have other : s.serial fd ≠ k := closed.2 fd live
    refine ⟨⟨?_, ?_⟩, ?_, ?_⟩
    · rw [accepted]
      exact closed.1
    · intro fd' there
      rw [serial]
      exact closed.2 fd' ((opened fd').mp there)
    · rw [heard, Function.update_of_ne (Ne.symm other)]
    · rw [pushed, if_neg other, List.append_nil]

theorem closeConn_open (s : TcpGateway) (fd fd' : Nat) (there : (s.closeConn fd).conns fd' ≠ none) :
    fd' ≠ fd ∧ (s.closeConn fd).conns fd' = s.conns fd' := by
  by_cases same : fd' = fd
  · subst same
    exact absurd (Function.update_self ..) there
  · exact ⟨same, Function.update_of_ne same ..⟩

theorem closeConn_framed (framed : s.Framed) (fd : Nat) : (s.closeConn fd).Framed ∧ Later s (s.closeConn fd) := by
  have opened := s.closeConn_open fd
  constructor
  · refine ⟨framed.published, framed.orders, ?_, ?_, ?_, framed.unheard, framed.counted⟩
    · intro fd' c there
      have kept := (opened fd' (by simp [there])).2
      exact framed.carries fd' c (kept ▸ there)
    · intro fd' there
      exact framed.numbered fd' ((opened fd' there).2 ▸ there)
    · intro fd₁ fd₂ first second
      exact framed.apart fd₁ fd₂ ((opened fd₁ first).2 ▸ first) ((opened fd₂ second).2 ▸ second)
  · intro k closed
    refine ⟨⟨closed.1, ?_⟩, rfl, rfl⟩
    intro fd' there
    exact closed.2 fd' ((opened fd' there).2 ▸ there)

theorem drain_framed {returns : List Recv} (framed : s.Framed) (here : s.conns fd = some c)
    (drained : drain fd returns c s = some s') : s'.Framed ∧ Later s s' := by
  induction returns generalizing s c with
  | nil => cases drained
  | cons first rest ih =>
    cases first with
    | bytes data =>
      rw [drain] at drained
      split at drained
      · rcases receive_framed framed here data with ⟨framed₁, later₁⟩
        have here₁ : (s.receive fd c data).conns fd = some (c.parseChunk data).1 := by
          rw [receive_conns, Function.update_self]
        rcases ih framed₁ here₁ drained with ⟨framed₂, later₂⟩
        exact ⟨framed₂, later₁.trans later₂⟩
      · cases drained
    | fin =>
      cases drained
      exact closeConn_framed framed fd
    | wouldBlock =>
      cases drained
      exact ⟨framed, Later.refl _⟩
    | interrupted => exact ih framed here drained
    | failed =>
      cases drained
      exact closeConn_framed framed fd

theorem handleConn_framed {hangup : Bool} {returns : List Recv} (framed : s.Framed)
    (handled : s.handleConn fd hangup returns = some s') : s'.Framed ∧ Later s s' := by
  rw [handleConn] at handled
  split at handled
  · cases handled
    exact closeConn_framed framed fd
  · split at handled
    · cases handled
      exact ⟨framed, Later.refl _⟩
    · rename_i here
      exact drain_framed framed here handled

theorem emplace_framed (framed : s.Framed) (unused : s.conns fd = none) : (s.emplace fd).Framed ∧ Later s (s.emplace fd) := by
  have here : (s.emplace fd).conns fd = some {} ∧ (s.emplace fd).serial fd = s.accepted :=
    ⟨Function.update_self .., Function.update_self ..⟩
  have other : ∀ fd', fd' ≠ fd → (s.emplace fd).conns fd' = s.conns fd' ∧ (s.emplace fd).serial fd' = s.serial fd' :=
    fun fd' apart => ⟨Function.update_of_ne apart .., Function.update_of_ne apart ..⟩
  constructor
  · refine ⟨framed.published, framed.orders, ?_, ?_, ?_, ?_, framed.counted⟩
    · intro fd' c there
      by_cases same : fd' = fd
      · subst same
        rw [here.1] at there
        cases there
        rw [here.2, show (s.emplace fd').received = s.received from rfl, framed.unheard _ (Nat.le_refl _)]
        exact ⟨rfl, rfl, rfl⟩
      · rw [(other fd' same).1] at there
        rw [(other fd' same).2]
        exact framed.carries fd' c there
    · intro fd' there
      by_cases same : fd' = fd
      · subst same
        rw [here.2]
        exact Nat.lt_succ_self _
      · rw [(other fd' same).1] at there
        rw [(other fd' same).2]
        exact Nat.lt_succ_of_lt (framed.numbered fd' there)
    · intro fd₁ fd₂ first second equal
      by_cases same₁ : fd₁ = fd
      · by_cases same₂ : fd₂ = fd
        · rw [same₁, same₂]
        · rw [(other fd₂ same₂).1] at second
          rw [same₁, here.2, (other fd₂ same₂).2] at equal
          exact absurd (framed.numbered fd₂ second) (by omega)
      · rw [(other fd₁ same₁).1] at first
        rw [(other fd₁ same₁).2] at equal
        by_cases same₂ : fd₂ = fd
        · rw [same₂, here.2] at equal
          exact absurd (framed.numbered fd₁ first) (by omega)
        · rw [(other fd₂ same₂).1] at second
          rw [(other fd₂ same₂).2] at equal
          exact framed.apart fd₁ fd₂ first second equal
    · intro k high
      exact framed.unheard k (Nat.le_of_succ_le high)
  · intro k closed
    refine ⟨⟨Nat.lt_succ_of_lt closed.1, ?_⟩, rfl, rfl⟩
    intro fd' there
    by_cases same : fd' = fd
    · rw [same, here.2]
      exact Nat.ne_of_gt closed.1
    · rw [(other fd' same).1] at there
      rw [(other fd' same).2]
      exact closed.2 fd' there

theorem acceptLoop_framed {accepts : List Accept} (framed : s.Framed) (looped : acceptLoop accepts s = some s') :
    s'.Framed ∧ Later s s' := by
  induction accepts generalizing s with
  | nil => cases looped
  | cons first rest ih =>
    cases first with
    | connected fd armed =>
      rw [acceptLoop] at looped
      split at looped
      · rename_i unused
        split at looped
        · rcases emplace_framed framed unused with ⟨framed₁, later₁⟩
          rcases ih framed₁ looped with ⟨framed₂, later₂⟩
          exact ⟨framed₂, later₁.trans later₂⟩
        · exact ih framed looped
      · cases looped
    | wouldBlock =>
      cases looped
      exact ⟨framed, Later.refl _⟩
    | interrupted => exact ih framed looped
    | failed =>
      cases looped
      exact ⟨framed, Later.refl _⟩

theorem step_framed {event : Event} {reply : Unit} (framed : s.Framed) (taken : step event s = some (s', reply)) :
    s'.Framed ∧ Later s s' := by
  cases event with
  | listening accepts =>
    rcases Option.map_eq_some_iff.mp taken with ⟨_, looped, same⟩
    cases same
    exact acceptLoop_framed framed looped
  | ready fd hangup returns =>
    rcases Option.map_eq_some_iff.mp taken with ⟨_, handled, same⟩
    cases same
    exact handleConn_framed framed handled

/-- However the bytes of the connections arrive, the orders of each are the blocks of its own
    bytes, and what a connection carries is what is left of them. -/
theorem orders_are_blocks (reach : Transition.Reachable step create s) :
    s.inbound = s.pushes.map Prod.snd ∧ (∀ k, s.ordersOf k = blocks ORDER_BYTES (s.received k)) ∧
      (∀ fd c, s.conns fd = some c → c.filled = (s.received (s.serial fd)).length % ORDER_BYTES ∧
        c.pending.take c.filled = rest ORDER_BYTES (s.received (s.serial fd))) ∧
      (∀ fd fd', s.conns fd ≠ none → s.conns fd' ≠ none → s.serial fd = s.serial fd' → fd = fd') ∧
      (∀ event s' reply, step event s = some (s', reply) → ∀ k, s.Closed k →
        s'.Closed k ∧ s'.received k = s.received k ∧ s'.ordersOf k = s.ordersOf k) ∧
      s.rejected = UInt64.ofNat (s.inbound.countP fun o => refusedAtGate (Order.ofBytes o)) := by
  have framed : s.Framed := reach.invariant create_framed fun _ _ _ _ before taken => (step_framed before taken).1
  refine ⟨framed.published, framed.orders, ?_, framed.apart, ?_, framed.counted⟩
  · intro fd c here
    exact ⟨(framed.carries fd c here).filled, (framed.carries fd c here).pending⟩
  · intro event s' reply taken
    exact (step_framed framed taken).2

/-- A connection that is closed within its first order, and another that gets its descriptor and
    sends an order and a quarter in two chunks. -/
theorem orders_are_blocks_of_reused : ∃ s : TcpGateway, s.accepted = 2 ∧ s.received 0 = List.replicate 30 1 ∧ s.ordersOf 0 = [] ∧
    s.received 1 = List.replicate 50 2 ∧ s.ordersOf 1 = [List.replicate 40 2] := by
  have ran : (Transition.run step [.listening [.connected 5 true, .wouldBlock],
      .ready 5 false [.bytes (List.replicate 30 1), .interrupted, .fin], .listening [.connected 5 true, .wouldBlock],
      .ready 5 false [.bytes (List.replicate 20 2), .wouldBlock],
      .ready 5 false [.bytes (List.replicate 30 2), .wouldBlock]] create).map (fun s => decide (s.accepted = 2 ∧
        s.received 0 = List.replicate 30 1 ∧ s.received 1 = List.replicate 50 2)) = some true := by decide +kernel
  rcases Option.map_eq_some_iff.mp ran with ⟨s, path, facts⟩
  rcases of_decide_eq_true facts with ⟨accepted, first, second⟩
  have orders := (orders_are_blocks (Transition.Reachable.start.run path)).2.1
  have none := orders 0
  have one := orders 1
  rw [first] at none
  rw [second] at one
  exact ⟨s, accepted, first, none.trans (by decide), second, one.trans (by decide)⟩

end TcpGateway

end Titan
