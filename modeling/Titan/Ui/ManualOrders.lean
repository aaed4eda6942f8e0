import Mathlib.Algebra.Ring.Int.Defs
import Titan.Net.TcpGateway
import Titan.Pipeline.Recovery

namespace Titan

open LittleEndian Framing

def Order.bytes (o : Order) : List UInt8 := o.words.flatMap fun word => encode 8 word.toNat

theorem Order.bytes_length (o : Order) : o.bytes.length = ORDER_BYTES := by
  rw [Order.bytes, length_flatMap (fun _ => encode_length ..)]
  rfl

theorem Order.ofBytes_bytes (o : Order) : Order.ofBytes o.bytes = o := by
  apply Order.ofWords_words
  intro j low
  have inside : j < o.words.length := low
  have word : o.words[j]? = some o.words[j] := List.getElem?_eq_getElem inside
  rw [Order.bytes, drop_flatMap (fun _ => encode_length ..), List.drop_eq_getElem_cons inside, List.flatMap_cons,
    List.take_left' (encode_length ..), decode_encode (UInt64.toNat_lt _), UInt64.ofNat_toNat, word]

namespace Ui

def MANUAL_ID_BASE : Nat := 3000000
def GW_HOST : String := "127.0.0.1"
def GW_PORT : Nat := 9099

/-- An order command from the browser: the side in upper case, which is `BUY` where none is given, and
    the numbers that `int()` makes of the price and the quantity, if it does. -/
structure Command where
  side : String
  price : Option Int
  qty : Option Int

/-- What `submit_manual_order` answers. `raised` is an error out of it, which ends the connection to the
    browser. -/
inductive Reply
  | ok (detail : String)
  | refused (detail : String)
  | raised
  deriving DecidableEq

/-- The next manual id, and what was written to each connection with the gateway. `placed` is history:
    the orders meant by those bytes. -/
structure Desk where
  manualIds : Nat := MANUAL_ID_BASE
  written : Nat → List UInt8 := fun _ => []
  placed : Nat → List Order := fun _ => []

/-- `ORDER.pack`, `none` where a value is out of the range of its field. -/
def packOrder (oid : Nat) (seq : Nat) (price qty remaining : Int) (side type : Nat) : Option (List UInt8) :=
  if oid < 2 ^ 64 ∧ seq < 2 ^ 64 ∧ (-2 ^ 63 ≤ price ∧ price < 2 ^ 63) ∧ (0 ≤ qty ∧ qty < 2 ^ 32) ∧
      (0 ≤ remaining ∧ remaining < 2 ^ 32) ∧ side < 256 ∧ type < 256 then
    some (pack [(8, oid), (8, seq), (8, (price % 2 ^ 64).toNat), (4, qty.toNat), (4, remaining.toNat), (1, side), (1, type), (6, 0)])
  else none

def Command.scode (c : Command) : Nat := if c.side = "SELL" then 1 else 0

def Command.order (c : Command) (oid : Nat) (price qty : Int) : Order where
  id := UInt64.ofNat oid
  seq := 0
  price := Int64.ofInt price
  quantity := UInt32.ofNat qty.toNat
  remaining := UInt32.ofNat qty.toNat
  side := UInt8.ofNat c.scode
  type := OrderType.LIMIT

/-- `writer` is the connection that `gw_writer` stands for, if it is open, and `failure` the error out of
    `drain`, if there is one. -/
def submitManualOrder (writer : Option Nat) (failure : Option String) (d : Desk) (c : Command) : Desk × Reply :=
  match writer with
  | none => (d, .refused s!"gateway {GW_HOST}:{GW_PORT} not connected")
  | some k =>
    match c.price, c.qty with
    | some price, some qty =>
      if qty ≤ 0 then (d, .refused "quantity must be > 0")
      else
        let oid := d.manualIds
        let d := { d with manualIds := oid + 1 }
        match packOrder oid 0 price qty qty c.scode 0 with
        | none => (d, .raised)
        | some pkt =>
          let d :=
            { d with
              written := Function.update d.written k (d.written k ++ pkt)
              placed := Function.update d.placed k (d.placed k ++ [c.order oid price qty]) }
          match failure with
          | some e => (d, .refused s!"send failed: {e}")
          | none =>
            let side := c.side
            (d, .ok s!"{side} {qty} @ {price}  (id {oid})")
    | _, _ => (d, .refused "invalid price/qty")

variable {oid : Nat} {price qty : Int} {pkt : List UInt8} {c : Command} {d : Desk}

theorem packOrder_eq (packed : packOrder oid 0 price qty qty c.scode 0 = some pkt) : pkt = (c.order oid price qty).bytes := by
  rw [packOrder] at packed
  split at packed
  · rename_i fits
    rcases fits with ⟨id, -, price', ⟨low, high⟩, -, side, -⟩
    cases packed
    have id' : (UInt64.ofNat oid).toNat = oid := by
      rw [UInt64.toNat_ofNat', Nat.mod_eq_of_lt id]
    have price'' : (Int64.ofInt price).toUInt64.toNat = (price % 2 ^ 64).toNat := by
      show (BitVec.ofInt 64 price).toNat = _
      rw [BitVec.toNat_ofInt]
      rfl
    have quantity : (UInt32.ofNat qty.toNat).toNat = qty.toNat := by
      rw [UInt32.toNat_ofNat', Nat.mod_eq_of_lt (by omega)]
    have side' : (UInt8.ofNat c.scode).toNat = c.scode := by
      rw [UInt8.toNat_ofNat', Nat.mod_eq_of_lt side]
    have quantities : (UInt64.ofNat (qty.toNat + 2 ^ 32 * qty.toNat)).toNat = qty.toNat + 256 ^ 4 * qty.toNat := by
      rw [UInt64.toNat_ofNat', Nat.mod_eq_of_lt (by omega)]
      rfl
    have tags : (UInt64.ofNat (c.scode + 2 ^ 8 * OrderType.LIMIT.toNat)).toNat = c.scode + 256 ^ 1 * 0 := by
      rw [UInt64.toNat_ofNat', Nat.mod_eq_of_lt (by show c.scode + 2 ^ 8 * 0 < 2 ^ 64; omega)]
      rfl
    have wide : qty.toNat < 256 ^ 4 := by omega
    have narrow : c.scode < 256 ^ 1 := side
    simp only [Order.bytes, Order.words, Command.order, List.flatMap_cons, List.flatMap_nil, List.append_nil, id', price'', quantity,
      side', quantities, tags, encode_append wide 4 qty.toNat, encode_append narrow 7 0, pack, List.append_assoc]
    rfl
  · cases packed

def serve (d : Desk) (calls : List (Option Nat × Option String × Command)) : Desk :=
  calls.foldl (fun d call => (submitManualOrder call.1 call.2.1 d call.2.2).1) d

/-- An order that may be on its way: one at a limit, for something, under a manual id below `next`. -/
structure Proper (next : Nat) (o : Order) : Prop where
  type : o.type = OrderType.LIMIT
  seq : o.seq = 0
  size : o.quantity = o.remaining ∧ o.remaining ≠ 0
  side : o.side = Side.BUY ∨ o.side = Side.SELL
  id : MANUAL_ID_BASE ≤ o.id.toNat ∧ o.id.toNat < next

structure Desk.Sound (d : Desk) : Prop where
  written : ∀ k, d.written k = (d.placed k).flatMap Order.bytes
  proper : ∀ k, ∀ o ∈ d.placed k, Proper d.manualIds o
  distinct : ∀ k, ((d.placed k).map Order.id).Nodup
  apart : ∀ j k, j ≠ k → ∀ o ∈ d.placed j, ∀ o' ∈ d.placed k, o.id ≠ o'.id
  base : MANUAL_ID_BASE ≤ d.manualIds

theorem start_sound : Desk.Sound {} where
  written _ := rfl
  proper _ _ member := by cases member
  distinct _ := List.nodup_nil
  apart _ _ _ _ member := by cases member
  base := Nat.le_refl _

theorem Proper.mono {next more : Nat} {o : Order} (proper : Proper next o) (grows : next ≤ more) : Proper more o :=
  ⟨proper.type, proper.seq, proper.size, proper.side, proper.id.1, Nat.lt_of_lt_of_le proper.id.2 grows⟩

theorem packOrder_proper (base : MANUAL_ID_BASE ≤ oid) (some' : ¬qty ≤ 0)
    (packed : packOrder oid 0 price qty qty c.scode 0 = some pkt) :
    (c.order oid price qty).id.toNat = oid ∧ Proper (oid + 1) (c.order oid price qty) := by
  rw [packOrder] at packed
  split at packed
  · rename_i fits
    rcases fits with ⟨id, -, -, ⟨low, high⟩, -⟩
    have id' : (c.order oid price qty).id.toNat = oid := by
      show (UInt64.ofNat oid).toNat = oid
      rw [UInt64.toNat_ofNat', Nat.mod_eq_of_lt id]
    refine ⟨id', rfl, rfl, ⟨rfl, ?_⟩, ?_, by rw [id']; exact base, by rw [id']; exact Nat.lt_succ_self _⟩
    · intro none
      have value : (UInt32.ofNat qty.toNat).toNat = 0 := congrArg UInt32.toNat none
      rw [UInt32.toNat_ofNat', Nat.mod_eq_of_lt (by omega)] at value
      omega
    · show UInt8.ofNat c.scode = 0 ∨ UInt8.ofNat c.scode = 1
      rw [Command.scode]
      split
      · exact .inr rfl
      · exact .inl rfl
  · cases packed

theorem Desk.Sound.placing {d : Desk} {o : Order} (sound : d.Sound) (k : Nat) (id : o.id.toNat = d.manualIds)
    (proper : Proper (d.manualIds + 1) o) :
    Desk.Sound
      { manualIds := d.manualIds + 1
        written := Function.update d.written k (d.written k ++ o.bytes)
        placed := Function.update d.placed k (d.placed k ++ [o]) } := by
  have fresh : ∀ j, ∀ o' ∈ d.placed j, o'.id ≠ o.id := by
    intro j o' member same
    have below := (sound.proper j o' member).id.2
    rw [same, id] at below
    exact Nat.lt_irrefl _ below
  have here : Function.update d.placed k (d.placed k ++ [o]) k = d.placed k ++ [o] := Function.update_self ..
  have there : ∀ {j}, j ≠ k → Function.update d.placed k (d.placed k ++ [o]) j = d.placed j :=
    fun other => Function.update_of_ne other ..
  constructor
  case written =>
    intro j
    dsimp only
    by_cases same : j = k
    · subst same
      rw [here, Function.update_self, List.flatMap_append, ← sound.written j, List.flatMap_singleton]
    · rw [there same, Function.update_of_ne same]
      exact sound.written j
  case proper =>
    intro j o' member
    dsimp only at member
    by_cases same : j = k
    · subst same
      rw [here] at member
      rcases List.mem_append.mp member with old | new
      · exact (sound.proper j o' old).mono (Nat.le_succ _)
      · rw [List.mem_singleton.mp new]
        exact proper
    · rw [there same] at member
      exact (sound.proper j o' member).mono (Nat.le_succ _)
  case distinct =>
    intro j
    dsimp only
    by_cases same : j = k
    · subst same
      rw [here, List.map_append, List.map_singleton, List.nodup_append]
      refine ⟨sound.distinct j, List.nodup_singleton _, ?_⟩
      intro id old id' new equal
      rcases List.mem_map.mp old with ⟨o', member, rfl⟩
      rw [List.mem_singleton.mp new] at equal
      exact fresh j o' member equal
    · rw [there same]
      exact sound.distinct j
  case apart =>
    intro i j other o₁ one o₂ two
    dsimp only at one two
    by_cases same : i = k
    · subst same
      rw [here] at one
      rw [there other.symm] at two
      rcases List.mem_append.mp one with old | new
      · exact sound.apart i j other o₁ old o₂ two
      · rw [List.mem_singleton.mp new]
        exact (fresh j o₂ two).symm
    · rw [there same] at one
      by_cases same' : j = k
      · subst same'
        rw [here] at two
        rcases List.mem_append.mp two with old | new
        · exact sound.apart i j other o₁ one o₂ old
        · rw [List.mem_singleton.mp new]
          exact fresh i o₁ one
      · rw [there same'] at two
        exact sound.apart i j other o₁ one o₂ two
  case base => exact Nat.le_succ_of_le sound.base

theorem Desk.Sound.skipping {d : Desk} (sound : d.Sound) : Desk.Sound { d with manualIds := d.manualIds + 1 } where
  written := sound.written
  proper k o member := (sound.proper k o member).mono (Nat.le_succ _)
  distinct := sound.distinct
  apart := sound.apart
  base := Nat.le_succ_of_le sound.base

theorem submitManualOrder_sound {d : Desk} (sound : d.Sound) (writer : Option Nat) (failure : Option String) (c : Command) :
    (submitManualOrder writer failure d c).1.Sound := by
  unfold submitManualOrder
  split
  · exact sound
  · rename_i k
    split
    · rename_i price qty _ _
      split
      · exact sound
      · rename_i some'
        dsimp only
        split
        · exact sound.skipping
        · rename_i pkt packed
          rcases packOrder_proper sound.base some' packed with ⟨id, proper⟩
          have placed := sound.placing k id proper
          rw [← packOrder_eq packed] at placed
          split <;> exact placed
    · exact sound

theorem serve_sound {d : Desk} (sound : d.Sound) (calls : List (Option Nat × Option String × Command)) : (serve d calls).Sound := by
  induction calls generalizing d with
  | nil => exact sound
  | cons call rest ih => exact ih (submitManualOrder_sound sound call.1 call.2.1 call.2.2)

theorem blocks_of_front {orders : List Order} {received : List UInt8} (part : received <+: orders.flatMap Order.bytes) :
    (blocks ORDER_BYTES received).map Order.ofBytes = orders.take (received.length / ORDER_BYTES) := by
  induction orders generalizing received with
  | nil =>
    rw [List.prefix_nil.mp part]
    rfl
  | cons o rest ih =>
    have some' : 0 < ORDER_BYTES := by decide
    by_cases short : received.length < ORDER_BYTES
    · rw [blocks_of_short short, Nat.div_eq_of_lt short]
      rfl
    · have long : ORDER_BYTES ≤ received.length := Nat.not_lt.mp short
      have whole : o.bytes <+: received := by
        apply List.prefix_of_prefix_length_le _ part
        · rw [o.bytes_length]
          exact long
        · exact List.prefix_append ..
      rcases whole with ⟨more, rfl⟩
      have part' : more <+: rest.flatMap Order.bytes := by
        rw [List.flatMap_cons] at part
        exact (List.prefix_append_right_inj _).mp part
      have count : (o.bytes ++ more).length / ORDER_BYTES = more.length / ORDER_BYTES + 1 := by
        rw [List.length_append, o.bytes_length, Nat.add_div_left _ some']
      rw [blocks_of_long some' long, List.take_left' o.bytes_length, List.drop_left' o.bytes_length, List.map_cons,
        Order.ofBytes_bytes, ih part', count, List.take_succ_cons]

/-- Only an order that was written to the gateway is acknowledged. -/
theorem acknowledged_placed {writer : Option Nat} {failure : Option String} {detail : String}
    (acknowledged : (submitManualOrder writer failure d c).2 = .ok detail) :
    ∃ k price qty, writer = some k ∧ c.price = some price ∧ c.qty = some qty ∧
      (submitManualOrder writer failure d c).1.placed k = d.placed k ++ [c.order d.manualIds price qty] := by
  unfold submitManualOrder at acknowledged ⊢
  split at acknowledged
  · cases acknowledged
  · rename_i k
    split at acknowledged
    · rename_i price qty hasPrice hasQty
      refine ⟨k, price, qty, rfl, hasPrice, hasQty, ?_⟩
      split at acknowledged
      · cases acknowledged
      · rename_i some'
        dsimp only at acknowledged ⊢
        rw [if_neg some']
        split at acknowledged
        · cases acknowledged
        · split at acknowledged
          · cases acknowledged
          · exact Function.update_self ..
    · cases acknowledged

/-- Whatever commands come in and whichever connections they find, each connection of the gateway that
    carries a part of what was written to one gives the engine the first of the orders placed there, each
    whole, and all of them once everything has come in; no two of them share an id. -/
theorem manual_orders_arrive {gateway : TcpGateway} (reach : Transition.Reachable TcpGateway.step TcpGateway.create gateway)
    (calls : List (Option Nat × Option String × Command)) :
    (serve {} calls).Sound ∧
      (∀ j k, gateway.received k <+: (serve {} calls).written j →
        (gateway.ordersOf k).map Order.ofBytes = ((serve {} calls).placed j).take ((gateway.received k).length / ORDER_BYTES)) ∧
      (∀ j k, gateway.received k = (serve {} calls).written j →
        (gateway.ordersOf k).map Order.ofBytes = (serve {} calls).placed j) ∧
      ∀ writer failure c detail, (submitManualOrder writer failure (serve {} calls) c).2 = .ok detail →
        ∃ k price qty, writer = some k ∧ c.price = some price ∧ c.qty = some qty ∧
          (submitManualOrder writer failure (serve {} calls) c).1.placed k =
            (serve {} calls).placed k ++ [c.order (serve {} calls).manualIds price qty] := by
  have framed : gateway.Framed := reach.invariant TcpGateway.create_framed fun _ _ _ _ before taken =>
    (TcpGateway.step_framed before taken).1
  have sound := serve_sound start_sound calls
  refine ⟨sound, ?_, ?_, fun _ _ _ _ => acknowledged_placed⟩
  · intro j k part
    rw [sound.written j] at part
    rw [framed.orders k]
    exact blocks_of_front part
  · intro j k whole
    rw [sound.written j] at whole
    have part : gateway.received k <+: ((serve {} calls).placed j).flatMap Order.bytes :=
      ⟨[], (List.append_nil _).trans whole⟩
    have size : (gateway.received k).length / ORDER_BYTES = ((serve {} calls).placed j).length := by
      rw [whole, length_flatMap Order.bytes_length, Nat.mul_div_cancel_left _ (by decide)]
    rw [framed.orders k, blocks_of_front part, size, List.take_length]

/-- Orders on two connections, and a connection of the gateway with the first and a quarter of the next. -/
theorem manual_orders_arrive_cut : ∃ (gateway : TcpGateway) (desk : Desk), (desk.placed 4).length = 2 ∧ (desk.placed 9).length = 1 ∧
    desk.Sound ∧ (gateway.ordersOf 0).map Order.ofBytes = (desk.placed 4).take 1 := by
  let calls : List (Option Nat × Option String × Command) := [(some 4, none, ⟨"SELL", some 1005, some 3⟩),
    (none, none, ⟨"SELL", some 1005, some 3⟩), (some 9, none, ⟨"BUY", some 990, some 7⟩), (some 4, none, ⟨"BUY", some (-1), some 2⟩)]
  have ran : (Transition.run TcpGateway.step [.listening [.connected 5 true, .wouldBlock],
      .ready 5 false [.bytes (((serve {} calls).written 4).take 30), .interrupted,
        .bytes ((((serve {} calls).written 4).drop 30).take 20), .wouldBlock]] TcpGateway.create).map (fun s => decide (s.received 0 = ((serve {} calls).written 4).take 50)) = some true := by
    decide +kernel
  rcases Option.map_eq_some_iff.mp ran with ⟨gateway, path, facts⟩
  have received : gateway.received 0 = ((serve {} calls).written 4).take 50 := of_decide_eq_true facts
  have part : gateway.received 0 <+: (serve {} calls).written 4 := received ▸ List.take_prefix ..
  have arrived := manual_orders_arrive (Transition.Reachable.start.run path) calls
  have first := arrived.2.1 4 0 part
  have size : (gateway.received 0).length / ORDER_BYTES = 1 := by
    rw [received]
    decide +kernel
  rw [size] at first
  exact ⟨gateway, serve {} calls, by decide +kernel, by decide +kernel, arrived.1, first⟩

end Ui

end Titan
