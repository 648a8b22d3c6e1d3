import Mathlib.Algebra.BigOperators.Group.List.Basic
import Mathlib.Algebra.Order.Ring.Int
import Mathlib.Data.List.Nodup
import SwapMachine.Intake.Minting
import SwapMachine.Proofs.AddressText
import SwapMachine.Proofs.Failure
import SwapMachine.Proofs.Isolation
import SwapMachine.Proofs.Quotient
import SwapMachine.Walk.Effect

/-!
# SwapMachine.Proofs.Supply — holdings add up to what has been minted

* `Index.IsSorted`: keys rise, so that no key stands twice and a sum over the entries changes with
  an insertion by the difference at its key (`sumWhere_place`).
* `Minted.Books`: nothing is held in fractions and no account holds less than nothing; a mint of a
  whole amount adds to its account and to the supply of its token (`Minted.Books.of_mint`).
* `sum_mintedTo`: what has been minted of a token is what has been minted to its owners.
* `holdings_of_mints`: balances and supplies after any mints, and the share of a taker that follows
  from them.
-/

namespace SwapMachine

/-! ### Sums over sorted entries -/

namespace Index

variable {κ ν : Type}

/-- The sum of the values at some keys. -/
def sumWhere (p : κ → Bool) (es : List (κ × Int)) : Int :=
  (es.filter fun e => p e.1).foldr (fun e sum => e.2 + sum) 0

theorem sumWhere_cons (p : κ → Bool) (e : κ × Int) (es : List (κ × Int)) :
    sumWhere p (e :: es) = (if p e.1 then e.2 else 0) + sumWhere p es := by
  rw [sumWhere, List.filter_cons]
  by_cases h : p e.1
  · rw [if_pos h, if_pos h, List.foldr_cons, sumWhere]
  · rw [if_neg h, if_neg h, Int.zero_add, sumWhere]

variable [DecidableEq κ]

/-- Among values that are not negative one is no more than a sum that it is part of. -/
theorem getD_find?_le_sumWhere {es : List (κ × Int)} (h : ∀ e ∈ es, 0 ≤ e.2) {p : κ → Bool} {k : κ}
    (hk : p k) : 0 ≤ (find? k es).getD 0 ∧ (find? k es).getD 0 ≤ sumWhere p es := by
  have hsum : ∀ {es : List (κ × Int)}, (∀ e ∈ es, 0 ≤ e.2) → 0 ≤ sumWhere p es := by
    intro es hes
    induction es with
    | nil => exact Int.le_refl 0
    | cons e es ih =>
      obtain ⟨he, hes⟩ := List.forall_mem_cons.1 hes
      have := ih hes
      rw [sumWhere_cons]
      split <;> omega
  induction es with
  | nil => exact ⟨Int.le_refl 0, Int.le_refl 0⟩
  | cons e es ih =>
    obtain ⟨he, hes⟩ := List.forall_mem_cons.1 h
    have hrest := hsum hes
    rw [sumWhere_cons, find?]
    by_cases heq : k = e.1
    · rw [if_pos heq, ← heq, if_pos hk, Option.getD_some]
      omega
    · obtain ⟨hlow, hhigh⟩ := ih hes
      rw [if_neg heq]
      split <;> omega

variable [Ord κ]

/-- The keys rise. -/
def IsSorted (es : List (κ × ν)) : Prop := es.Pairwise fun d e => compare d.1 e.1 = .lt

theorem mem_place {k : κ} {v : ν} {es : List (κ × ν)} {d : κ × ν} (h : d ∈ place k v es) :
    d = (k, v) ∨ d ∈ es := by
  induction es with
  | nil => exact .inl (List.mem_singleton.1 h)
  | cons e es ih =>
    unfold place at h
    split at h
    · rcases List.mem_cons.1 h with h | h
      · exact .inl h
      · exact .inr (List.mem_cons_of_mem _ h)
    · split at h
      · rcases List.mem_cons.1 h with h | h
        · exact .inl h
        · exact .inr h
      · rcases List.mem_cons.1 h with rfl | h
        · exact .inr (List.mem_cons_self ..)
        · exact (ih h).imp_right (List.mem_cons_of_mem _)

variable [Std.LawfulEqOrd κ]

/-- A key before all others is not among them. -/
theorem find?_of_lt {k : κ} {es : List (κ × ν)} (h : ∀ e ∈ es, compare k e.1 = .lt) :
    find? k es = none := by
  induction es with
  | nil => rfl
  | cons e es ih =>
    obtain ⟨he, hes⟩ := List.forall_mem_cons.1 h
    have hne : k ≠ e.1 := by
      intro heq
      rw [heq, Std.ReflOrd.compare_self] at he
      cases he
    rw [find?, if_neg hne, ih hes]

variable [Std.TransOrd κ]

theorem isSorted_place {k : κ} {es : List (κ × ν)} (h : IsSorted es) (v : ν) :
    IsSorted (place k v es) := by
  induction es with
  | nil => exact List.pairwise_singleton ..
  | cons e es ih =>
    obtain ⟨hfirst, hes⟩ := List.pairwise_cons.1 h
    cases hk : compare k e.1 with
    | lt =>
      rw [place_of_lt hk]
      refine List.pairwise_cons.2 ⟨List.forall_mem_cons.2 ⟨hk, fun d hd => ?_⟩, h⟩
      exact Std.TransCmp.lt_trans hk (hfirst d hd)
    | eq =>
      rw [place_of_eq hk]
      refine List.pairwise_cons.2 ⟨fun d hd => ?_, hes⟩
      rw [Std.LawfulEqOrd.eq_of_compare hk]
      exact hfirst d hd
    | gt =>
      rw [place_of_gt hk]
      refine List.pairwise_cons.2 ⟨fun d hd => ?_, ih hes⟩
      rcases mem_place hd with rfl | hd
      · exact Std.OrientedCmp.lt_of_gt hk
      · exact hfirst d hd

/-- A value that is put at a key takes the place of the one there. -/
theorem sumWhere_place {es : List (κ × Int)} (h : IsSorted es) (p : κ → Bool) (k : κ) (v : Int) :
    sumWhere p (place k v es) =
      sumWhere p es + if p k then v - (find? k es).getD 0 else 0 := by
  induction es with
  | nil =>
    rw [place, sumWhere_cons, find?, Option.getD_none, Int.sub_zero]
    exact Int.add_comm ..
  | cons e es ih =>
    obtain ⟨hfirst, hes⟩ := List.pairwise_cons.1 h
    cases hk : compare k e.1 with
    | lt =>
      have hbefore : ∀ d ∈ e :: es, compare k d.1 = .lt :=
        List.forall_mem_cons.2 ⟨hk, fun d hd => Std.TransCmp.lt_trans hk (hfirst d hd)⟩
      rw [place_of_lt hk, sumWhere_cons, find?_of_lt hbefore, Option.getD_none, Int.sub_zero]
      exact Int.add_comm ..
    | eq =>
      obtain rfl := Std.LawfulEqOrd.eq_of_compare hk
      rw [place_of_eq hk, sumWhere_cons, sumWhere_cons, find?, if_pos rfl, Option.getD_some]
      split <;> omega
    | gt =>
      have hne : k ≠ e.1 := by
        intro heq
        rw [heq, Std.ReflOrd.compare_self] at hk
        cases hk
      rw [place_of_gt hk, sumWhere_cons, sumWhere_cons, ih hes, find?, if_neg hne, Int.add_assoc]

end Index

/-! ### Accounts -/

instance : Std.TransOrd Account :=
  inferInstanceAs (Std.TransCmp (compareLex (compareOn Account.token) (compareOn Account.owner)))

instance : Std.LawfulEqOrd Account where
  compare_self := Std.ReflCmp.compare_self
  eq_of_compare {a b} h := by
    obtain ⟨htoken, howner⟩ := Ordering.then_eq_eq.1 h
    have htoken := Std.LawfulEqOrd.eq_of_compare htoken
    have howner := Std.LawfulEqOrd.eq_of_compare howner
    cases a
    cases b
    cases htoken
    cases howner
    rfl

theorem canonical_of_ofDatum {field : String} {d : Datum} {t : String}
    (h : Address.ofDatum field d = .ok t) (field' : String) :
    Address.canonical field' t = .ok t := by
  obtain ⟨bs, ⟨hsize, -⟩, rfl⟩ := Address.ofDatum_eq_ok_iff.1 h
  exact Address.canonical_ofBytes hsize field'

namespace Intake

open FixedPoint Number

/-- A mint of a whole amount. -/
structure Minting where
  token : Datum
  owner : Datum
  amount : Datum
  value : Int
  isWhole : amount.quantity? = some (.whole value)

namespace Minting

/-- The mint is of the token with this canonical address. -/
def isOf (mi : Minting) (token : String) : Bool :=
  (Address.ofDatum "address" mi.token).toOption == some token

/-- The mint is to the owner with this canonical address. -/
def isTo (mi : Minting) (owner : String) : Bool :=
  (Address.ofDatum "address" mi.owner).toOption == some owner

theorem value_of_isBelow (mi : Minting) (h : mi.amount.isBelow (.int 0) = false) :
    0 ≤ mi.value := by
  obtain ⟨token, owner, amount, value, hwhole⟩ := mi
  cases amount with
  | bool b =>
    cases hwhole
    show 0 ≤ if b then (1 : Int) else 0
    split <;> decide
  | int z =>
    cases hwhole
    rw [Datum.isBelow_int, decide_eq_false_iff_not] at h
    exact Int.not_lt.1 h
  | _ => cases hwhole

end Minting

/-- All that some mints have added. -/
def mintedWhere (p : Minting → Bool) (ms : List Minting) : Int :=
  ((ms.filter p).map Minting.value).sum

/-- What has been minted of a token. -/
def mintedOf (ms : List Minting) (token : String) : Int := mintedWhere (·.isOf token) ms

/-- What has been minted to an account. -/
def mintedTo (ms : List Minting) (a : Account) : Int :=
  mintedWhere (fun mi => mi.isOf a.token && mi.isTo a.owner) ms

theorem mintedWhere_cons (p : Minting → Bool) (mi : Minting) (ms : List Minting) :
    mintedWhere p (mi :: ms) = (if p mi then mi.value else 0) + mintedWhere p ms := by
  rw [mintedWhere, List.filter_cons]
  by_cases h : p mi
  · rw [if_pos h, if_pos h, List.map_cons, List.sum_cons, mintedWhere]
  · rw [if_neg h, if_neg h, Int.zero_add, mintedWhere]

/-- What has been minted of a token has been minted to its owners, to each of them once. -/
theorem sum_mintedTo {ms : List Minting} {token : String} {owners : List String}
    (hnodup : owners.Nodup) (h : ∀ mi ∈ ms, mi.isOf token → ∃ o ∈ owners, mi.isTo o) :
    (owners.map fun o => mintedTo ms ⟨token, o⟩).sum = mintedOf ms token := by
  induction ms with
  | nil => exact List.sum_map_zero
  | cons mi ms ih =>
    obtain ⟨hmi, hms⟩ := List.forall_mem_cons.1 h
    have hothers := ih hms
    simp only [mintedTo, mintedOf, mintedWhere_cons] at hothers ⊢
    rw [List.sum_map_add, hothers]
    congr 1
    by_cases hof : mi.isOf token
    · obtain ⟨owner, howner, hto⟩ := hmi hof
      have hone : ∀ o, mi.isTo o ↔ o = owner := by
        intro o
        rw [Minting.isTo, beq_iff_eq.1 hto, beq_iff_eq, Option.some.injEq, eq_comm]
      simp only [hof, Bool.true_and, hone]
      rw [List.sum_map_ite_eq owners (fun _ => mi.value) (fun _ => 0) owner,
        List.count_eq_one_of_mem hnodup howner, one_nsmul, sub_zero, List.sum_map_zero, add_zero,
        if_pos trivial]
    · simp only [hof, Bool.false_and, Bool.false_eq_true, if_false]
      exact List.sum_map_zero

/-! ### Mints -/

namespace Minted

/-- The holdings after mints in turn. -/
def mintAll (m : Minted) (ms : List Minting) : Outcome Minted :=
  ms.foldlM (fun m mi => m.mint mi.token mi.owner mi.amount) m

/-- What there is of the token with a canonical address, held in whole numbers. -/
def supplyOf (m : Minted) (token : String) : Int :=
  Index.sumWhere (fun a => decide (a.token = token)) m.holdings.amounts.entries

/-- Nothing is held in fractions, no account stands twice and none holds less than nothing. -/
structure Books (m : Minted) : Prop where
  whole : m.fractions = []
  sorted : Index.IsSorted m.holdings.amounts.entries
  nonneg : ∀ e ∈ m.holdings.amounts.entries, 0 ≤ e.2

theorem books_empty : Books empty :=
  ⟨rfl, List.Pairwise.nil, fun _ he => absurd he List.not_mem_nil⟩

theorem Books.held {m : Minted} (h : m.Books) (a : Account) :
    m.held a = .whole (m.holdings.held a) := by
  unfold Minted.held
  rw [h.whole]
  rfl

/-- An account holds no less than nothing and no more than there is of its token. -/
theorem Books.held_le {m : Minted} (h : m.Books) (a : Account) :
    0 ≤ m.holdings.held a ∧ m.holdings.held a ≤ m.supplyOf a.token :=
  Index.getD_find?_le_sumWhere h.nonneg (decide_eq_true rfl)

/-- A mint changes the one account that it is to. -/
theorem Books.mint_eq_ok {m m' : Minted} {mi : Minting} (h : m.Books)
    (hmint : m.mint mi.token mi.owner mi.amount = .ok m') :
    ∃ a : Account, 0 ≤ mi.value ∧ Address.ofDatum "address" mi.token = .ok a.token ∧
      Address.ofDatum "address" mi.owner = .ok a.owner ∧ m'.fractions = [] ∧
      m'.holdings = ⟨m.holdings.amounts.insert a (m.holdings.held a + mi.value)⟩ := by
  unfold mint at hmint
  split at hmint
  · cases hmint
  · next hbelow =>
    have hnonneg := mi.value_of_isBelow (Bool.eq_false_iff.2 hbelow)
    obtain ⟨a, ha, hmint⟩ := Outcome.bind_eq_ok.1 hmint
    rw [mi.isWhole] at hmint
    obtain ⟨sum, hsum, hmint⟩ := Outcome.bind_eq_ok.1 hmint
    rw [h.held] at hsum
    cases hsum
    obtain ⟨holdings, hholdings, hmint⟩ := Outcome.bind_eq_ok.1 hmint
    cases hmint
    obtain ⟨token, htoken, ha⟩ := Outcome.bind_eq_ok.1 ha
    obtain ⟨owner, howner, ha⟩ := Outcome.bind_eq_ok.1 ha
    cases ha
    rw [Outcome.ofHex_eq_ok_iff] at htoken howner
    refine ⟨⟨token, owner⟩, hnonneg, htoken, howner, h.whole, ?_⟩
    rw [Holdings.mint, if_neg (Int.not_lt.2 hnonneg), Holdings.account,
      canonical_of_ofDatum htoken, canonical_of_ofDatum howner] at hholdings
    cases hholdings
    rfl

/-- One mint adds to its account and to the supply of its token. -/
theorem Books.of_mint {m m' : Minted} {mi : Minting} (h : m.Books)
    (hmint : m.mint mi.token mi.owner mi.amount = .ok m') :
    m'.Books ∧
      (∀ a : Account, m'.holdings.held a = m.holdings.held a +
        if mi.isOf a.token && mi.isTo a.owner then mi.value else 0) ∧
      ∀ token, m'.supplyOf token = m.supplyOf token + if mi.isOf token then mi.value else 0 := by
  obtain ⟨⟨token, owner⟩, hnonneg, htoken, howner, hfractions, hholdings⟩ := h.mint_eq_ok hmint
  have hof : ∀ t, mi.isOf t ↔ token = t := by
    intro t
    rw [Minting.isOf, htoken]
    exact beq_iff_eq.trans Option.some_inj
  have hto : ∀ o, mi.isTo o ↔ owner = o := by
    intro o
    rw [Minting.isTo, howner]
    exact beq_iff_eq.trans Option.some_inj
  have hheld : ∀ a : Account, m'.holdings.held a = m.holdings.held a +
      if mi.isOf a.token && mi.isTo a.owner then mi.value else 0 := by
    intro a
    rw [hholdings, Holdings.held, Index.get?_insert]
    simp only [Bool.and_eq_true, hof, hto]
    by_cases ha : a = ⟨token, owner⟩
    · subst ha
      rw [if_pos rfl, if_pos ⟨rfl, rfl⟩, Option.getD_some]
    · have hne : ¬ (token = a.token ∧ owner = a.owner) := by
        rintro ⟨rfl, rfl⟩
        exact ha rfl
      rw [if_neg ha, if_neg hne, Int.add_zero, Holdings.held]
  refine ⟨⟨hfractions, ?_, fun e he => ?_⟩, hheld, fun t => ?_⟩
  · rw [hholdings]
    exact Index.isSorted_place h.sorted _
  · rw [hholdings] at he
    rcases Index.mem_place he with rfl | he
    · exact Int.add_nonneg (h.held_le _).1 hnonneg
    · exact h.nonneg e he
  · have hplace := Index.sumWhere_place h.sorted (fun a => decide (a.token = t)) ⟨token, owner⟩
      (m.holdings.held ⟨token, owner⟩ + mi.value)
    have hdifference : m.holdings.held ⟨token, owner⟩ + mi.value -
        (Index.find? ⟨token, owner⟩ m.holdings.amounts.entries).getD 0 = mi.value := by
      show m.holdings.held _ + mi.value - m.holdings.held _ = mi.value
      omega
    rw [hdifference] at hplace
    rw [supplyOf, hholdings]
    refine hplace.trans ?_
    simp only [decide_eq_true_eq, hof, supplyOf]

/-- **Mints** add up. -/
theorem Books.of_mintAll {m m' : Minted} {ms : List Minting} (h : m.Books)
    (hmints : m.mintAll ms = .ok m') :
    m'.Books ∧ (∀ a, m'.holdings.held a = m.holdings.held a + mintedTo ms a) ∧
      ∀ token, m'.supplyOf token = m.supplyOf token + mintedOf ms token := by
  induction ms generalizing m with
  | nil =>
    cases hmints
    exact ⟨h, fun a => (Int.add_zero _).symm, fun token => (Int.add_zero _).symm⟩
  | cons mi ms ih =>
    obtain ⟨m₁, hmint, hmints⟩ := Outcome.bind_eq_ok.1 hmints
    obtain ⟨hbooks, hheld, hsupply⟩ := h.of_mint hmint
    obtain ⟨hbooks', hheld', hsupply'⟩ := ih hbooks hmints
    refine ⟨hbooks', fun a => ?_, fun token => ?_⟩
    · rw [hheld', hheld, mintedTo, mintedTo, mintedWhere_cons, Int.add_assoc]
    · rw [hsupply', hsupply, mintedOf, mintedOf, mintedWhere_cons, Int.add_assoc]

section Answers

variable {m : Minted} {token owner : Datum} {t o : String}

theorem Books.balanceOf (h : m.Books) (ht : Address.ofDatum "address" token = .ok t)
    (ho : Address.ofDatum "address" owner = .ok o) :
    m.balanceOf token owner = .ok (.whole (m.holdings.held ⟨t, o⟩)) := by
  rw [Minted.balanceOf, account, ht, ho]
  exact congrArg Except.ok (h.held _)

/-- What several owners hold of a token. -/
theorem Books.balances (h : m.Books) (ht : Address.ofDatum "address" token = .ok t)
    {owners : List Datum} {addresses : List String}
    (howners : owners.mapM (Address.ofDatum "address") = .ok addresses) :
    owners.mapM (m.balanceOf token) =
      .ok ((addresses.map fun o => m.holdings.held ⟨t, o⟩).map .whole) := by
  induction owners generalizing addresses with
  | nil =>
    cases howners
    rfl
  | cons owner owners ih =>
    rw [List.mapM_cons] at howners ⊢
    cases ho : Address.ofDatum "address" owner with
    | error f =>
      rw [ho] at howners
      cases howners
    | ok o =>
      rw [ho] at howners
      cases hos : owners.mapM (Address.ofDatum "address") with
      | error f =>
        rw [hos] at howners
        cases howners
      | ok os =>
        rw [hos] at howners
        cases howners
        rw [h.balanceOf ht ho, ih hos]
        rfl

theorem Books.totalSupply (h : m.Books) (ht : Address.ofDatum "address" token = .ok t) :
    m.totalSupply token = .ok (.whole (m.supplyOf t)) := by
  have hself := canonical_of_ofDatum ht "address"
  rw [Minted.totalSupply, ht, h.whole]
  show (do return .whole (← m.holdings.totalSupply t) : Outcome Quantity) = _
  rw [Holdings.totalSupply, hself]
  rfl

end Answers

/-! ### The share of a taker -/

section Share

open Walk

variable {m : Minted} {t : Terms} {token : String} {b s : String}

/-- The books answer a walk about the taker's holdings and about the supply. -/
theorem Books.ask_eq_ok (h : m.Books) (hledger : t.ledger = some m.ledger)
    (htoken : Address.canonical "address" token = .ok b)
    (htaker : Address.canonical "address" t.query.taker = .ok s) :
    Effect.takerBalance t token = .ok (m.holdings.held ⟨b, s⟩) ∧
      Effect.supply t token = .ok (m.supplyOf b) := by
  have hheld := h.held_le ⟨b, s⟩
  have hbalance : m.balanceOf (.text token) (.text t.query.taker) = _ := h.balanceOf htoken htaker
  have hsupply : m.totalSupply (.text token) = _ := h.totalSupply htoken
  have hholding : ∀ {z : Int}, 0 ≤ z → Effect.holding? (.int z) = some z := fun hz => if_pos hz
  have hthere : Effect.ledger t = .ok m.ledger := by rw [Effect.ledger, hledger]
  constructor
  · refine Outcome.bind_eq_ok.2 ⟨m.ledger, hthere,
      Outcome.bind_eq_ok.2 ⟨.int (m.holdings.held ⟨b, s⟩), ?_, ?_⟩⟩
    · show Effect.ask _ (answer (m.balanceOf _ _)) = _
      rw [hbalance]
      rfl
    · rw [hholding hheld.1]
      rfl
  · refine Outcome.bind_eq_ok.2 ⟨m.ledger, hthere,
      Outcome.bind_eq_ok.2 ⟨.int (m.supplyOf b), ?_, ?_⟩⟩
    · show Effect.ask _ (answer (m.totalSupply _)) = _
      rw [hsupply]
      rfl
    · rw [hholding (Int.le_trans hheld.1 hheld.2)]
      rfl

/-- The share of a taker who holds no more than there is can always be computed, and it is compared
as the exact fraction is. -/
theorem requireShareAtLeast_iff {balance supply : Int} (minimum : Nat)
    (hbalance : Effect.takerBalance t token = .ok balance)
    (hsupply : Effect.supply t token = .ok supply) (hnonneg : 0 ≤ balance)
    (hle : balance ≤ supply) (hmax : supply ≤ maxUint) :
    (Effect.requireShareAtLeast t token minimum = .ok () ↔
      0 < supply ∧ minimum * supply ≤ balance * one) ∧
    FailsWithin (fun f => f.kind = .takerSupplyShareTooLow)
      (Effect.requireShareAtLeast t token minimum) := by
  unfold Effect.requireShareAtLeast
  rw [hbalance, hsupply]
  dsimp only [bind, Except.bind]
  by_cases hzero : supply = 0
  · rw [if_pos hzero]
    refine ⟨iff_of_false (fun h => by cases h) fun h => ?_, failsWithin_error rfl⟩
    omega
  · have hpos : 0 < supply := by omega
    have hone : IsUint one := by decide
    have hshare : floorDiv (balance * one) supply ≤ one := by
      rw [Int.mul_comm]
      exact floorDiv_mul_le_of_le hone.1 hpos hle
    have hquotient : mulDivDown balance one supply = .ok (floorDiv (balance * one) supply) :=
      mulDivDown_eq_ok_iff.2 ⟨⟨⟨hnonneg, by omega⟩, hone, ⟨by omega, hmax⟩, hpos⟩, rfl,
        Int.le_trans hshare hone.2⟩
    rw [if_neg hzero, hquotient]
    dsimp only
    rw [← le_floorDiv_iff hpos]
    by_cases hlow : floorDiv (balance * one) supply < minimum
    · rw [if_pos hlow]
      refine ⟨iff_of_false (fun h => by cases h) fun h => ?_, failsWithin_error rfl⟩
      exact Int.not_le.2 hlow h.2
    · rw [if_neg hlow]
      exact ⟨iff_of_true rfl ⟨hpos, Int.not_lt.1 hlow⟩, failsWithin_ok⟩

end Share

/-- **Balances and supplies add up** after mints of whole amounts, however the addresses are
spelled: the supply of a token is what has been minted of it, and what its owners hold together,
each counted once. A taker passes the condition on a share of a supply of 256 bits if and only if
there is a supply and the exact share is large enough; otherwise the share is what is blamed. -/
theorem holdings_of_mints (ms : List Minting) (m : Minted) (hmints : empty.mintAll ms = .ok m) :
    (∀ (token : Datum) (address : String) (owners : List Datum) (addresses : List String),
      Address.ofDatum "address" token = .ok address →
      owners.mapM (Address.ofDatum "address") = .ok addresses → addresses.Nodup →
      (∀ mi ∈ ms, mi.isOf address → ∃ o ∈ addresses, mi.isTo o) →
        ∃ balances : List Int, owners.mapM (m.balanceOf token) = .ok (balances.map .whole) ∧
          m.totalSupply token = .ok (.whole balances.sum) ∧ balances.sum = mintedOf ms address) ∧
    ∀ (t : Walk.Terms) (pc : Nat) (s : Walk.Sheet) (token address taker : String) (minimum : Nat),
      t.ledger = some m.ledger → Address.canonical "address" token = .ok address →
      Address.canonical "address" t.query.taker = .ok taker →
        ∃ balance supply : Int,
          m.balanceOf (.text token) (.text t.query.taker) = .ok (.whole balance) ∧
          m.totalSupply (.text token) = .ok (.whole supply) ∧
          (supply ≤ maxUint →
            (Walk.Effect.of t pc (.takerShareAtLeast token minimum) s = .ok (.now s) ↔
              0 < supply ∧ minimum * supply ≤ balance * one) ∧
            FailsWithin (fun f => f.kind = .takerSupplyShareTooLow)
              (Walk.Effect.of t pc (.takerShareAtLeast token minimum) s)) := by
  obtain ⟨hbooks, hheld, hsupply⟩ := books_empty.of_mintAll hmints
  refine ⟨?_, ?_⟩
  · intro token address owners addresses htoken howners hnodup hcovers
    refine ⟨addresses.map fun o => m.holdings.held ⟨address, o⟩, ?_, ?_⟩
    · exact hbooks.balances htoken howners
    · have hminted : ∀ o, m.holdings.held ⟨address, o⟩ = mintedTo ms ⟨address, o⟩ := fun o =>
        (hheld ⟨address, o⟩).trans (Int.zero_add _)
      have hall : m.supplyOf address = mintedOf ms address :=
        (hsupply address).trans (Int.zero_add _)
      have hsum := sum_mintedTo hnodup hcovers
      simp only [hminted]
      rw [hbooks.totalSupply htoken, hall, hsum]
      exact ⟨rfl, rfl⟩
  · intro t pc s token address taker minimum hledger htoken htaker
    obtain ⟨hbalance, hthere⟩ := hbooks.ask_eq_ok hledger htoken htaker
    obtain ⟨hnonneg, hle⟩ := hbooks.held_le ⟨address, taker⟩
    refine ⟨_, _, hbooks.balanceOf htoken htaker, hbooks.totalSupply htoken, fun hmax => ?_⟩
    obtain ⟨hpasses, hfails⟩ := requireShareAtLeast_iff minimum hbalance hthere hnonneg hle hmax
    refine ⟨?_, hfails.bind fun _ _ => failsWithin_pure⟩
    rw [← hpasses]
    constructor
    · intro h
      obtain ⟨⟨⟩, hcondition, -⟩ := Outcome.bind_eq_ok.1 h
      exact hcondition
    · exact fun h => Outcome.bind_eq_ok.2 ⟨(), h, rfl⟩

/-- Mints of one token to two owners, the first in two spellings; there is as much as 256 bits can
hold. -/
def respelledMints : List Minting :=
  [⟨.text "0xaaaaaaaaaaaaaaaaaaaaaaaaaaaaaaaaaaaaaaaa",
      .text "0xbbbbbbbbbbbbbbbbbbbbbbbbbbbbbbbbbbbbbbbb", .int 5, 5, rfl⟩,
    ⟨.text " AAAAAAAAAAAAAAAAAAAAAAAAAAAAAAAAAAAAAAAA",
      .text "0XBBBBBBBBBBBBBBBBBBBBBBBBBBBBBBBBBBBBBBBB ", .bool true, 1, rfl⟩,
    ⟨.text "0xaaaaaaaaaaaaaaaaaaaaaaaaaaaaaaaaaaaaaaaa",
      .text "0xcccccccccccccccccccccccccccccccccccccccc", .int (maxUint - 6), maxUint - 6, rfl⟩]

/-- The terms of a walk for a taker who is asked about holdings. -/
def takerTerms (m : Minted) (taker : String) : Walk.Terms where
  program := []
  instructions := ⟨[]⟩
  query := ⟨"", "", taker, "", "", true⟩
  now := 0
  ledger := some m.ledger
  feeSources := .empty
  limits := ⟨0, 0⟩
  stopAtSwap := false

theorem holdings_of_mints_respelledMints :
    let token := "aaaaaaaaaaaaaaaaaaaaaaaaaaaaaaaaaaaaaaaa"
    let taker := "0xcccccccccccccccccccccccccccccccccccccccc"
    ∃ m, empty.mintAll respelledMints = .ok m ∧ m.totalSupply (.text token) = .ok (.whole maxUint) ∧
      ∀ s, Walk.Effect.of (takerTerms m taker) 0 (.takerShareAtLeast token 999999999999999999) s =
          .ok (.now s) ∧
        ∃ f, Walk.Effect.of (takerTerms m taker) 0 (.takerShareAtLeast token 1000000000000000000) s =
          .error f ∧ f.kind = .takerSupplyShareTooLow := by
  intro token taker
  have hsome : (empty.mintAll respelledMints).toOption.isSome = true := by decide +kernel
  obtain ⟨m, hm⟩ : ∃ m, empty.mintAll respelledMints = .ok m := by
    cases h : empty.mintAll respelledMints with
    | ok m => exact ⟨m, rfl⟩
    | error f =>
      rw [h] at hsome
      cases hsome
  have htoken : Address.canonical "address" token =
      .ok "0xaaaaaaaaaaaaaaaaaaaaaaaaaaaaaaaaaaaaaaaa" :=
    Outcome.ofHex_eq_ok_iff.1 (Outcome.eq_ok_of_toOption (by decide +kernel))
  have htaker : Address.canonical "address" taker = .ok taker :=
    Outcome.ofHex_eq_ok_iff.1 (Outcome.eq_ok_of_toOption (by decide +kernel))
  have howners : [Datum.text " 0xBBBBBBBBBBBBBBBBBBBBBBBBBBBBBBBBBBBBBBBB", .text taker].mapM
      (Address.ofDatum "address") =
        .ok ["0xbbbbbbbbbbbbbbbbbbbbbbbbbbbbbbbbbbbbbbbb", taker] :=
    Outcome.ofHex_eq_ok_iff.1 (Outcome.eq_ok_of_toOption (by decide +kernel))
  obtain ⟨hsums, hshares⟩ := holdings_of_mints respelledMints m hm
  obtain ⟨balances, -, hsupply, hsum⟩ := hsums (.text token) _ _ _ htoken howners
    (by decide +kernel) (by decide +kernel)
  have hall : mintedOf respelledMints "0xaaaaaaaaaaaaaaaaaaaaaaaaaaaaaaaaaaaaaaaa" = maxUint := by
    decide +kernel
  have hheld : m.holdings.held ⟨"0xaaaaaaaaaaaaaaaaaaaaaaaaaaaaaaaaaaaaaaaa", taker⟩ = maxUint - 6 :=
    ((books_empty.of_mintAll hm).2.1 _).trans (by decide +kernel)
  rw [hsum, hall] at hsupply
  refine ⟨m, hm, hsupply, fun s => ?_⟩
  have hshare : ∀ minimum : Nat,
      (Walk.Effect.of (takerTerms m taker) 0 (.takerShareAtLeast token minimum) s = .ok (.now s) ↔
        0 < maxUint ∧ minimum * maxUint ≤ (maxUint - 6) * one) ∧
      FailsWithin (fun f => f.kind = .takerSupplyShareTooLow)
        (Walk.Effect.of (takerTerms m taker) 0 (.takerShareAtLeast token minimum) s) := by
    intro minimum
    obtain ⟨balance, supply, hbalance, hsupply', hshare⟩ :=
      hshares (takerTerms m taker) 0 s token _ taker minimum rfl htoken htaker
    have hown : m.balanceOf (.text token) (.text taker) = _ :=
      (books_empty.of_mintAll hm).1.balanceOf htoken htaker
    rw [hheld] at hown
    cases hown.symm.trans hbalance
    cases hsupply.symm.trans hsupply'
    exact hshare (Int.le_refl _)
  refine ⟨(hshare _).1.2 (by decide), ?_⟩
  obtain ⟨hpasses, hfails⟩ := hshare 1000000000000000000
  cases h : Walk.Effect.of (takerTerms m taker) 0
      (.takerShareAtLeast token 1000000000000000000) s with
  | error f => exact ⟨f, rfl, hfails f h⟩
  | ok e =>
    obtain ⟨⟨⟩, hcondition, he⟩ := Outcome.bind_eq_ok.1 h
    cases he
    exact absurd (hpasses.1 h) (by decide)

end Minted

end Intake

end SwapMachine
