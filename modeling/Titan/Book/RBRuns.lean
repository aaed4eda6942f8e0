import Titan.Book.RBInvariant

namespace Titan

open RedBlack Linked

namespace RBPriceIndex

variable {t t' : RBPriceIndex} {tree : RBTree Nat} {cap capacity : Nat} {cmp : Compare}

/-- The finite map an index stands for: each price with the cell and the payload that hold it. -/
abbrev Contents := PriceTick → Option (Nat × PriceLevel)

/-- The runs of an index that was built empty, beside the map each call should leave. -/
inductive Run (cmp : Compare) (capacity : Nat) : RBPriceIndex → Contents → Prop
  | start : Run cmp capacity (create cmp capacity) fun _ => none
  | existing {t t' m price i} (run : Run cmp capacity t m)
      (call : t.tryEmplace price = some (t', .ok (i, false))) : Run cmp capacity t' m
  | refused {t t' m price e} (run : Run cmp capacity t m)
      (call : t.tryEmplace price = some (t', .error e)) : Run cmp capacity t' m
  | inserted {t t' m price z} (run : Run cmp capacity t m)
      (call : t.tryEmplace price = some (t', .ok (z, true))) :
      Run cmp capacity t' (Function.update m price (some (z, {})))
  | erased {t t' m price z level} (run : Run cmp capacity t m) (present : m price = some (z, level))
      (call : t.erase z = some t') : Run cmp capacity t' (Function.update m price none)
  | written {t m price z level} (run : Run cmp capacity t m) (present : m price = some (z, level))
      (level' : PriceLevel) : Run cmp capacity (t.setLevel z level') (Function.update m price (some (z, level')))

theorem setLevel_valid (valid : Valid t cap tree) (i : Nat) (level : PriceLevel) :
    Valid (t.setLevel i level) cap tree := by
  have keys : (t.setLevel i level).key = t.key := by
    funext j
    by_cases same : j = i
    · subst same
      simp [key, setLevel]
    · simp [key, setLevel, Function.update_of_ne same]
  refine ⟨valid.focus, valid.balanced, valid.sentinelColor, valid.sentinelParent, ?_, valid.chain, valid.first,
    valid.count, valid.pool⟩
  rw [keys]
  exact valid.sorted

def Holds (t : RBPriceIndex) (tree : RBTree Nat) (m : Contents) : Prop :=
  ∀ price z level, m price = some (z, level) ↔ z ∈ tree.inorder ∧ t.kv z = (price, level)

theorem Holds.none_iff {m : Contents} (holds : Holds t tree m) (price : PriceTick) :
    m price = none ↔ ∀ i ∈ tree.inorder, t.key i ≠ price := by
  constructor
  · intro absent i member same
    have entry := (holds price i (t.kv i).2).mpr ⟨member, by rw [← same, key]⟩
    simp [absent] at entry
  · intro absent
    cases entry : m price with
    | none => rfl
    | some found =>
      obtain ⟨member, held⟩ := (holds price found.1 found.2).mp entry
      exact absurd (by rw [key, held]) (absent found.1 member)

theorem Valid.key_injective {i j : Nat} (valid : Valid t cap tree) (first : i ∈ tree.inorder)
    (second : j ∈ tree.inorder) (same : t.key i = t.key j) : i = j := by
  have differ : (tree.inorder.map t.key).Nodup :=
    List.pairwise_map.mpr (valid.sorted.imp fun ordered => Compare.before_ne ordered)
  exact List.inj_on_of_nodup_map differ first second same

theorem Holds.insert {m : Contents} {z : Nat} {price : PriceTick} {tree' : RBTree Nat} (holds : Holds t tree m)
    (absent : ∀ i ∈ tree.inorder, t.key i ≠ price) (outside : z ∉ tree.inorder)
    (order : ∀ i, i ∈ tree'.inorder ↔ i = z ∨ i ∈ tree.inorder)
    (kv : t'.kv = Function.update t.kv z (price, {})) :
    Holds t' tree' (Function.update m price (some (z, {}))) := by
  intro q i level
  rw [order, kv]
  by_cases here : i = z
  · subst here
    rw [Function.update_self]
    by_cases same : q = price
    · subst same
      rw [Function.update_self]
      simp
    · rw [Function.update_of_ne same, holds]
      simp [outside, Ne.symm same]
  · rw [Function.update_of_ne here]
    by_cases same : q = price
    · subst same
      rw [Function.update_self]
      have other : i ∈ tree.inorder → t.kv i ≠ (q, level) := fun member held =>
        absent i member (by rw [key, held])
      simp only [Option.some.injEq, Prod.mk.injEq, here, false_or, Ne.symm here, false_and, false_iff, not_and]
      exact other
    · rw [Function.update_of_ne same, holds]
      simp [here]

theorem Holds.erase {m : Contents} {z : Nat} {price : PriceTick} {level : PriceLevel} {tree' : RBTree Nat}
    (holds : Holds t tree m) (valid : Valid t cap tree) (present : m price = some (z, level))
    (order : ∀ i, i ∈ tree'.inorder ↔ i ∈ tree.inorder ∧ i ≠ z) (kv : t'.kv = t.kv) :
    Holds t' tree' (Function.update m price none) := by
  obtain ⟨member, held⟩ := (holds price z level).mp present
  intro q i payload
  rw [order, kv]
  by_cases same : q = price
  · subst same
    rw [Function.update_self]
    simp only [reduceCtorEq, false_iff, not_and, and_imp]
    intro other apart entry
    exact apart (valid.key_injective other member (by rw [key, key, entry, held]))
  · rw [Function.update_of_ne same, holds]
    constructor
    · rintro ⟨inside, entry⟩
      refine ⟨⟨inside, ?_⟩, entry⟩
      rintro rfl
      exact same (by simpa [entry] using congrArg Prod.fst held)
    · rintro ⟨⟨inside, _⟩, entry⟩
      exact ⟨inside, entry⟩

theorem Holds.write {m : Contents} {z : Nat} {price : PriceTick} {level : PriceLevel} (level' : PriceLevel)
    (holds : Holds t tree m) (valid : Valid t cap tree) (present : m price = some (z, level)) :
    Holds (t.setLevel z level') tree (Function.update m price (some (z, level'))) := by
  obtain ⟨member, held⟩ := (holds price z level).mp present
  intro q i payload
  by_cases here : i = z
  · subst here
    by_cases same : q = price
    · subst same
      simp [setLevel, held, member]
    · rw [Function.update_of_ne same, holds]
      simp [setLevel, held, member, Ne.symm same]
  · simp only [setLevel, Function.update_of_ne here]
    by_cases same : q = price
    · subst same
      rw [Function.update_self]
      have other : i ∈ tree.inorder → t.kv i ≠ (q, payload) := fun inside entry =>
        here (valid.key_injective inside member (by rw [key, key, entry, held]))
      simp only [Option.some.injEq, Prod.mk.injEq, Ne.symm here, false_and, false_iff, not_and]
      exact other
    · rw [Function.update_of_ne same, holds]

theorem Run.valid {m : Contents} (run : Run cmp capacity t m) :
    ∃ tree, Valid t (capacity % 2 ^ 32) tree ∧ Holds t tree m ∧ t.before_ = cmp := by
  induction run with
  | start => exact ⟨.nil, create_valid cmp capacity, by simp [Holds, RBTree.inorder], rfl⟩
  | @existing t t' m price i run call ih =>
    obtain ⟨tree, valid, holds, order⟩ := ih
    obtain ⟨t'', result, returned, emplaced⟩ := tryEmplace_spec valid price
    rw [call] at returned
    cases returned
    cases emplaced
    exact ⟨tree, valid, holds, order⟩
  | @refused t t' m price e run call ih =>
    obtain ⟨tree, valid, holds, order⟩ := ih
    obtain ⟨t'', result, returned, emplaced⟩ := tryEmplace_spec valid price
    rw [call] at returned
    cases returned
    cases emplaced
    exact ⟨tree, valid, holds, order⟩
  | @inserted t t' m price z run call ih =>
    obtain ⟨tree, valid, holds, order⟩ := ih
    obtain ⟨t'', result, returned, emplaced⟩ := tryEmplace_spec valid price
    rw [call] at returned
    cases returned
    cases emplaced with
    | @fresh _ _ tree' l₁ l₂ absent popped valid' split order' kv same =>
      have outside := (valid.free_not_mem (z := z) (by simp [popped])).1
      refine ⟨tree', valid', holds.insert absent outside ?_ kv, same.trans order⟩
      intro i
      rw [order', split]
      simp only [List.mem_append, List.mem_cons]
      tauto
  | @erased t t' m price z level run present call ih =>
    obtain ⟨tree, valid, holds, order⟩ := ih
    obtain ⟨member, held⟩ := (holds price z level).mp present
    obtain ⟨t'', tree', l₁, l₂, returned, erased⟩ := erase_spec valid member
    rw [call] at returned
    cases returned
    refine ⟨tree', erased.valid, holds.erase valid present ?_ erased.kv, erased.cmp.trans order⟩
    intro i
    have distinct := valid.nodup
    rw [erased.split, List.perm_middle.nodup_iff, List.nodup_cons] at distinct
    rw [erased.order, erased.split]
    simp only [List.mem_append, List.mem_cons] at distinct ⊢
    constructor
    · intro inside
      refine ⟨by tauto, ?_⟩
      rintro rfl
      exact distinct.1 inside
    · tauto
  | @written t m price z level run present level' ih =>
    obtain ⟨tree, valid, holds, order⟩ := ih
    exact ⟨tree, setLevel_valid valid z level', holds.write level' valid present, order⟩

/-- The pool is a red-black tree threaded in symmetric order, with the rest of the cells
    `1..capacity` on the free list. -/
structure Sound (t : RBPriceIndex) (capacity : Nat) (tree : RBTree Nat) : Prop where
  root : t.links.root = tree.top NIL
  links : Represents t.links NIL NIL tree
  distinct : tree.inorder.Nodup
  ordered : tree.inorder.Pairwise fun i j => t.before_.before (t.key i) (t.key j) = true
  rootBlack : tree.color = .black
  redChildren : tree.RedChildrenBlack
  blackPaths : ∃ n, ∀ k ∈ tree.blackCounts, k = n
  height : tree.height ≤ 2 * Nat.log 2 (t.size_ + 1)
  forward : Walk t.succ NIL t.begin_ tree.inorder
  backward : Walk t.pred NIL (tree.inorder.getLastD NIL) tree.inorder.reverse
  count : t.size_ = tree.size
  used : ∀ i ∈ tree.inorder, 1 ≤ i ∧ i ≤ capacity
  unusedOnce : t.free.Nodup
  unused : ∀ i, i ∈ t.free ↔ 1 ≤ i ∧ i ≤ capacity ∧ i ∉ tree.inorder
  sentinelColor : t.links.color NIL = .black
  sentinelParent : t.links.parent NIL = NIL

theorem Valid.mem_pool (valid : Valid t cap tree) (i : Nat) :
    i ∈ t.free ∨ i ∈ tree.inorder ↔ 1 ≤ i ∧ i ≤ cap := by
  rw [← List.mem_append, valid.pool.mem_iff]
  simp only [List.mem_map, List.mem_range]
  constructor
  · rintro ⟨k, bound, rfl⟩
    omega
  · intro bounds
    exact ⟨i - 1, by omega, by omega⟩

theorem Valid.pool_nodup (valid : Valid t cap tree) : (t.free ++ tree.inorder).Nodup :=
  valid.pool.nodup_iff.mpr (List.nodup_range.map fun a b same => by simpa using same)

theorem Valid.sound (valid : Valid t cap tree) : Sound t cap tree := by
  obtain ⟨n, balanced⟩ := valid.balanced
  have once := List.nodup_append.mp valid.pool_nodup
  refine
    { root := valid.focus.outer
      links := valid.focus.inner
      distinct := valid.nodup
      ordered := valid.sorted
      rootBlack := balanced.color_eq
      redChildren := balanced.redChildrenBlack
      blackPaths := ⟨n, balanced.blackCounts_eq⟩
      height := by rw [valid.count]; exact balanced.height_le_log
      forward := by rw [valid.first]; exact valid.chain.walk valid.sentinel_not_mem
      backward := valid.chain.walk_back valid.sentinel_not_mem
      count := valid.count
      used := fun i member => (valid.mem_pool i).mp (.inr member)
      unusedOnce := once.1
      unused := fun i => ⟨fun member => ?_, fun ⟨low, high, outside⟩ => ?_⟩
      sentinelColor := valid.sentinelColor
      sentinelParent := valid.sentinelParent }
  · have bounds := (valid.mem_pool i).mp (.inl member)
    exact ⟨bounds.1, bounds.2, fun inside => once.2.2 i member i inside rfl⟩
  · exact ((valid.mem_pool i).mpr ⟨low, high⟩).resolve_right outside

def iterate (t : RBPriceIndex) : List Nat := trace t.succ NIL t.size_ t.begin_

theorem Valid.iterate_eq (valid : Valid t cap tree) : t.iterate = tree.inorder := by
  have short : tree.inorder.length ≤ t.size_ := by
    rw [valid.count, RBTree.inorder_length]
  exact valid.sound.forward.trace_eq short

/-- The index keeps its invariant and its loops end in every run exactly when the
    capacity survives the conversion of the free list's counter to 32 bits. -/
theorem sound_iff_capacity_fits (cmp : Compare) (capacity : Nat) :
    (∀ t m, Run cmp capacity t m → ∃ tree, Sound t capacity tree ∧
      (∀ price, (t.tryEmplace price).isSome) ∧ ∀ z ∈ tree.inorder, (t.erase z).isSome) ↔
    capacity < 2 ^ 32 := by
  constructor
  · intro always
    obtain ⟨tree, sound, _, _⟩ := always _ _ .start
    have empty : tree.inorder = [] := by
      have total := sound.count
      rw [← RBTree.inorder_length] at total
      exact List.length_eq_zero_iff.mp total.symm
    have high := sound.unused (capacity % 2 ^ 32 + 1)
    rw [empty] at high
    simp only [create, List.mem_map, List.mem_range, Nat.add_right_cancel_iff, exists_eq_right, Nat.lt_irrefl,
      false_iff, List.not_mem_nil, not_false_eq_true, and_true, not_and] at high
    have bound := Nat.mod_lt capacity (Nat.two_pow_pos 32)
    have short := high (by omega)
    omega
  · intro fits t m run
    obtain ⟨tree, valid, _, _⟩ := run.valid
    rw [Nat.mod_eq_of_lt fits] at valid
    refine ⟨tree, valid.sound, fun price => ?_, fun z member => ?_⟩
    · obtain ⟨t', result, returned, _⟩ := tryEmplace_spec valid price
      rw [returned, Option.isSome_some]
    · obtain ⟨t', tree', l₁, l₂, returned, _⟩ := erase_spec valid member
      rw [returned, Option.isSome_some]

theorem sound_fails_at_two_pow :
    ∃ t m, Run .less (2 ^ 32) t m ∧ ¬∃ tree, Sound t (2 ^ 32) tree := by
  refine ⟨_, _, .start, ?_⟩
  rintro ⟨tree, sound⟩
  have empty : tree.inorder = [] := by
    have total := sound.count
    rw [← RBTree.inorder_length] at total
    exact List.length_eq_zero_iff.mp total.symm
  have missing := (sound.unused 1).mpr ⟨by decide, by decide, by simp [empty]⟩
  simp [create] at missing

structure Agrees (cmp : Compare) (capacity : Nat) (t : RBPriceIndex) (m : Contents) : Prop where
  iterates : ∃ path, Walk t.succ NIL t.begin_ path ∧ path.length = t.size_ ∧
    (path.map t.key).Pairwise (fun a b => cmp.before a b = true) ∧
    ∀ price z level, m price = some (z, level) ↔ z ∈ path ∧ t.kv z = (price, level)
  begins : (t.begin_ = NIL ∧ ∀ price, m price = none) ∨
    ∃ level, m (t.key t.begin_) = some (t.begin_, level) ∧
      ∀ price, m price ≠ none → price = t.key t.begin_ ∨ cmp.before (t.key t.begin_) price = true
  real : ∀ price z level, m price = some (z, level) → z ≠ NIL
  finds : ∀ price z level, m price = some (z, level) → t.find price = some z
  misses : ∀ price, m price = none → t.find price = some NIL
  existing : ∀ price z level, m price = some (z, level) → t.tryEmplace price = some (t, .ok (z, false))
  refuses : ∀ price, m price = none → t.size_ = capacity → t.tryEmplace price = some (t, .error .badAlloc)
  inserts : ∀ price, m price = none → t.size_ ≠ capacity →
    ∃ t' z, t.tryEmplace price = some (t', .ok (z, true)) ∧ z ≠ NIL ∧ ∀ q i level, m q = some (i, level) → i ≠ z
  erases : ∀ price z level, m price = some (z, level) → ∃ t', t.erase z = some t'

theorem Valid.exhausted_iff (valid : Valid t cap tree) : t.free = [] ↔ t.size_ = cap := by
  have total := valid.pool.length_eq
  simp only [List.length_append, RBTree.inorder_length, List.length_map, List.length_range] at total
  rw [valid.count, ← List.length_eq_zero_iff]
  omega

section Answers

variable {m : Contents} (valid : Valid t cap tree) (holds : Holds t tree m)

include valid holds

theorem Holds.find_eq {price : PriceTick} {z : Nat} {level : PriceLevel} (present : m price = some (z, level)) :
    t.find price = some z := by
  obtain ⟨member, held⟩ := (holds price z level).mp present
  have here : t.key z = price := by rw [key, held]
  obtain ⟨x, found, outcome⟩ := find_spec valid price
  rw [found]
  rcases outcome with ⟨inside, same⟩ | ⟨_, absent⟩
  · rw [valid.key_injective inside member (same.trans here.symm)]
  · exact absurd here (absent z member)

theorem Holds.find_missing {price : PriceTick} (missing : m price = none) : t.find price = some NIL := by
  have absent := (holds.none_iff price).mp missing
  obtain ⟨x, found, outcome⟩ := find_spec valid price
  rw [found]
  rcases outcome with ⟨inside, same⟩ | ⟨here, _⟩
  · exact absurd same (absent x inside)
  · rw [here]

theorem Holds.tryEmplace_existing {price : PriceTick} {z : Nat} {level : PriceLevel}
    (present : m price = some (z, level)) : t.tryEmplace price = some (t, .ok (z, false)) := by
  obtain ⟨member, held⟩ := (holds price z level).mp present
  have here : t.key z = price := by rw [key, held]
  obtain ⟨t', result, returned, emplaced⟩ := tryEmplace_spec valid price
  rw [returned]
  cases emplaced with
  | present inside same => rw [valid.key_injective inside member (same.trans here.symm)]
  | full absent _ => exact absurd here (absent z member)
  | fresh absent _ _ _ _ _ _ => exact absurd here (absent z member)

theorem Holds.tryEmplace_refused {price : PriceTick} (missing : m price = none) (full : t.size_ = cap) :
    t.tryEmplace price = some (t, .error .badAlloc) := by
  have absent := (holds.none_iff price).mp missing
  obtain ⟨t', result, returned, emplaced⟩ := tryEmplace_spec valid price
  rw [returned]
  cases emplaced with
  | present inside same => exact absurd same (absent _ inside)
  | full _ _ => rfl
  | fresh _ popped _ _ _ _ _ =>
    rw [valid.exhausted_iff.mpr full] at popped
    cases popped

theorem Holds.tryEmplace_inserted {price : PriceTick} (missing : m price = none) (room : t.size_ ≠ cap) :
    ∃ t' z tree', t.tryEmplace price = some (t', .ok (z, true)) ∧ z ∉ tree.inorder ∧ z ≠ NIL ∧
      Valid t' cap tree' ∧ tree'.size = tree.size + 1 := by
  have absent := (holds.none_iff price).mp missing
  obtain ⟨t', result, returned, emplaced⟩ := tryEmplace_spec valid price
  rw [returned]
  cases emplaced with
  | present inside same => exact absurd same (absent _ inside)
  | full _ exhausted => exact absurd (valid.exhausted_iff.mp exhausted) room
  | @fresh z _ tree' l₁ l₂ _ popped valid' split order _ _ =>
    have outside := valid.free_not_mem (z := z) (by simp [popped])
    refine ⟨t', z, tree', rfl, outside.1, outside.2, valid', ?_⟩
    rw [← RBTree.inorder_length, ← RBTree.inorder_length, order, split]
    simp only [List.length_append, List.length_cons]
    omega

theorem Holds.begin_least (order : t.before_ = cmp) :
    (t.begin_ = NIL ∧ ∀ price, m price = none) ∨
    ∃ level, m (t.key t.begin_) = some (t.begin_, level) ∧
      ∀ price, m price ≠ none → price = t.key t.begin_ ∨ cmp.before (t.key t.begin_) price = true := by
  cases form : tree.inorder with
  | nil =>
    refine .inl ⟨by rw [valid.first, form]; rfl, fun price => ?_⟩
    rw [holds.none_iff, form]
    simp
  | cons b rest =>
    have first : t.begin_ = b := by rw [valid.first, form]; rfl
    refine .inr ⟨(t.kv b).2, ?_, fun price present => ?_⟩
    · rw [first, holds, form]
      exact ⟨List.mem_cons_self, by rw [key]⟩
    · obtain ⟨⟨z, level⟩, entry⟩ := Option.ne_none_iff_exists'.mp present
      obtain ⟨member, held⟩ := (holds price z level).mp entry
      have here : t.key z = price := by rw [key, held]
      have sorted := valid.sorted
      rw [form] at member sorted
      rw [first, ← here, ← order]
      rcases List.mem_cons.mp member with rfl | later
      · exact .inl rfl
      · exact .inr ((List.pairwise_cons.mp sorted).1 z later)

end Answers

theorem agrees_of_valid {m : Contents} (valid : Valid t cap tree) (holds : Holds t tree m)
    (order : t.before_ = cmp) : Agrees cmp cap t m := by
  have real : ∀ price z level, m price = some (z, level) → z ≠ NIL := by
    rintro price z level present rfl
    exact valid.sentinel_not_mem ((holds price NIL level).mp present).1
  refine ⟨⟨tree.inorder, valid.sound.forward, ?_, ?_, holds⟩, holds.begin_least valid order, real,
    fun _ _ _ => holds.find_eq valid, fun _ => holds.find_missing valid,
    fun _ _ _ => holds.tryEmplace_existing valid, fun _ => holds.tryEmplace_refused valid, ?_, ?_⟩
  · rw [RBTree.inorder_length, valid.count]
  · rw [List.pairwise_map, ← order]
    exact valid.sorted
  · intro price missing room
    obtain ⟨t', z, _, returned, outside, ne, _, _⟩ := holds.tryEmplace_inserted valid missing room
    refine ⟨t', z, returned, ne, ?_⟩
    rintro q i level present rfl
    exact outside ((holds q i level).mp present).1
  · intro price z level present
    obtain ⟨t', _, _, _, returned, _⟩ := erase_spec valid ((holds price z level).mp present).1
    exact ⟨t', returned⟩

theorem Run.fill (cmp : Compare) (capacity k : Nat) (bound : k ≤ capacity % 2 ^ 32) :
    ∃ t m, Run cmp capacity t m ∧ t.size_ = k ∧ ∀ price, m price ≠ none → price.toInt < k := by
  induction k with
  | zero => exact ⟨_, _, .start, rfl, by simp⟩
  | succ k ih =>
    obtain ⟨t, m, run, count, low⟩ := ih (by omega)
    obtain ⟨tree, valid, holds, _⟩ := run.valid
    have small := Nat.mod_lt capacity (Nat.two_pow_pos 32)
    have value : (Int64.ofNat k).toInt = k := Int64.toInt_ofNat_of_lt (by omega)
    have missing : m (Int64.ofNat k) = none := by
      by_contra present
      have less := low _ present
      omega
    obtain ⟨t', z, tree', returned, _, _, valid', grown⟩ := holds.tryEmplace_inserted valid missing (by omega)
    refine ⟨t', _, .inserted run returned, ?_, ?_⟩
    · rw [valid'.count, grown, ← valid.count, count]
    · intro price present
      by_cases same : price = Int64.ofNat k
      · rw [same, value]
        omega
      · rw [Function.update_of_ne same] at present
        have less := low price present
        omega

/-- The index is a sorted map in every run exactly when the capacity survives the
    conversion of the free list's counter to 32 bits. -/
theorem agrees_iff_capacity_fits (cmp : Compare) (capacity : Nat) :
    (∀ t m, Run cmp capacity t m → Agrees cmp capacity t m) ↔ capacity < 2 ^ 32 := by
  constructor
  · intro always
    by_contra large
    have small := Nat.mod_lt capacity (Nat.two_pow_pos 32)
    obtain ⟨t, m, run, count, low⟩ := Run.fill cmp capacity (capacity % 2 ^ 32) (Nat.le_refl _)
    obtain ⟨tree, valid, holds, _⟩ := run.valid
    have missing : m (Int64.ofNat (capacity % 2 ^ 32)) = none := by
      by_contra present
      have less := low _ present
      rw [Int64.toInt_ofNat_of_lt (by omega)] at less
      omega
    obtain ⟨t', z, returned, _⟩ := (always t m run).inserts _ missing (by omega)
    rw [holds.tryEmplace_refused valid missing count] at returned
    cases returned
  · intro fits t m run
    obtain ⟨tree, valid, holds, order⟩ := run.valid
    rw [Nat.mod_eq_of_lt fits] at valid
    exact agrees_of_valid valid holds order

theorem agrees_fails_at_two_pow :
    ∃ t m, Run .less (2 ^ 32) t m ∧ ¬Agrees .less (2 ^ 32) t m := by
  refine ⟨_, _, .start, ?_⟩
  intro agrees
  obtain ⟨t', z, returned, _⟩ := agrees.inserts 0 rfl (by decide)
  have refused : (create .less (2 ^ 32)).tryEmplace 0 = some (create .less (2 ^ 32), .error .badAlloc) := by rfl
  rw [refused] at returned
  cases returned

end RBPriceIndex

end Titan
