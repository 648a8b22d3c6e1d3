import Mathlib.Data.List.Forall2
import SwapMachine.Proofs.LabelJump
import SwapMachine.Proofs.Relocation

/-!
# SwapMachine.Proofs.Salt — programs with a salt more

A salt does nothing, but the records behind it stand elsewhere, and so jumps to labels go elsewhere.
Walks do not differ in anything else.

* `Step.Sibling`: what a step appends when the labels are at other places.
* `Step.Relocated`: where a boundary of the program stands in the one with the salt.
* `Assembly.Inserted`: the parts of both programs, with siblings in front of the salt and behind it.
* `Assembly.Inserted.corresponds`: related boundaries correspond.
* `Walk.salt_only_changes_identity`: walks through both programs agree.
-/

namespace SwapMachine

open Block Record

namespace Instruction

theorem retarget_of_plain {i : Instruction} (h : i.target? = none) (n : Nat) :
    i.retarget n = i := by
  cases i <;> first | rfl | cases h

theorem destination?_of_plain {q : Query} {i : Instruction} (h : i.target? = none) :
    i.destination? q = none := by
  cases i <;> first | rfl | cases h

theorem target?_of_parse {op : Opcode} {bs : Bytes} {i : Instruction} (h : parse op bs = .ok i)
    (hplain : op.isJump = false) : i.target? = none := by
  cases htarget : i.target? with
  | none => rfl
  | some n =>
    rw [isJump_of_target h htarget] at hplain
    cases hplain

end Instruction

namespace Step

variable {place place' : String → Option Nat} {p p' : Part} {s : Step}

/-! ### Steps with labels at other places -/

/-- The same part, which is no jump, or jumps alike, to two places of a label. -/
inductive Sibling (place place' : String → Option Nat) : Part → Part → Prop
  | same {p : Part} (h : (Opcode.ofNumber p.1.toNat).isJump = false) : Sibling place place' p p
  | jump {code : UInt8} {args args' : Bytes} {i : Instruction} {l : String} {target target' : Nat}
    (hlength : args'.length = args.length)
    (hparse : Instruction.parse (Opcode.ofNumber code.toNat) args = .ok i)
    (hparse' : Instruction.parse (Opcode.ofNumber code.toNat) args' = .ok (i.retarget target'))
    (htarget : i.target? = some target) (hl : place l = some target)
    (hl' : place' l = some target') : Sibling place place' (code, args) (code, args')

theorem Sibling.code (h : Sibling place place' p p') : p'.1 = p.1 := by
  cases h <;> rfl

theorem Sibling.length (h : Sibling place place' p p') : p'.2.length = p.2.length := by
  cases h with
  | same => rfl
  | jump hlength => exact hlength

theorem record?_congr (h : s.target? = none) : s.record? place' = s.record? place := by
  cases s <;> first | rfl | cases h

theorem code_inj {p p' : Part} {n : Int} (h : (p.1.toNat : Int) = n)
    (h' : (p'.1.toNat : Int) = n) : p'.1 = p.1 :=
  UInt8.toNat_inj.1 (Int.ofNat_inj.1 (h'.trans h.symm))

theorem Sibling.of_jump {l : String} (h : (Step.jump l).Writes place p)
    (h' : (Step.jump l).Writes place' p') : Sibling place place' p p' := by
  obtain ⟨target, hl, hcode, hlength, hparse⟩ := h.jump
  obtain ⟨target', hl', hcode', hlength', hparse'⟩ := h'.jump
  obtain ⟨code, args⟩ := p
  obtain ⟨code', args'⟩ := p'
  obtain rfl : code' = code := code_inj hcode hcode'
  exact .jump (hlength'.trans hlength.symm) hparse hparse' rfl hl hl'

theorem Sibling.of_tokenJump {op : Opcode} {c : String → Nat → Instruction} {token : Datum}
    {l : String} (hop : op ∈ Opcode.standard)
    (hparse : ∀ bs, Instruction.parse op bs =
      Reader.whole Instruction.tokenAndTarget bs >>= fun x => pure (c x.1 x.2))
    (htarget : ∀ text n, (c text n).target? = some n)
    (hretarget : ∀ text m n, (c text m).retarget n = c text n)
    (hs : ∀ place, s.record? place = tokenJump? op token l place)
    (h : s.Writes place p) (h' : s.Writes place' p') : Sibling place place' p p' := by
  obtain ⟨target, x, hl, hcode, hx, hlength, hjump⟩ := h.tokenJump hop hparse (hs place)
  obtain ⟨target', x', hl', hcode', hx', hlength', hjump'⟩ := h'.tokenJump hop hparse (hs place')
  obtain ⟨code, args⟩ := p
  obtain ⟨code', args'⟩ := p'
  obtain rfl : code' = code := code_inj hcode hcode'
  obtain rfl : x' = x := Except.ok.inj (hx'.symm.trans hx)
  rw [← hretarget _ target] at hjump'
  exact .jump (hlength'.trans hlength.symm) hjump hjump' (htarget _ _) hl hl'

/-- **A step** that is no raw jump appends siblings. -/
theorem Writes.sibling (hraw : s.isRawJump = false) (h : s.Writes place p)
    (h' : s.Writes place' p') : Sibling place place' p p' := by
  obtain ⟨fields, hrecord, hblock⟩ := h
  obtain ⟨fields', hrecord', hblock'⟩ := h'
  cases ht : s.target? with
  | none =>
    rw [record?_congr ht, hrecord] at hrecord'
    obtain ⟨hcode, rfl⟩ := Prod.mk.inj (Option.some.inj hrecord')
    obtain rfl : p' = p :=
      Prod.ext (code_inj rfl hcode.symm) (Except.ok.inj (hblock'.symm.trans hblock))
    refine .same (Bool.eq_false_iff.2 fun hjump => ?_)
    obtain ⟨l, hl⟩ := exists_target_of_isJump hrecord hraw hjump
    rw [ht] at hl
    cases hl
  | some l =>
    cases s with
    | jump =>
      exact .of_jump ⟨fields, hrecord, hblock⟩ ⟨fields', hrecord', hblock'⟩
    | jumpIfTokenIn token =>
      exact .of_tokenJump (c := .jumpIfTokenIn) (by decide) (fun _ => rfl) (fun _ _ => rfl)
        (fun _ _ _ => rfl) (fun _ => rfl) ⟨fields, hrecord, hblock⟩ ⟨fields', hrecord', hblock'⟩
    | jumpIfTokenOut token =>
      exact .of_tokenJump (c := .jumpIfTokenOut) (by decide) (fun _ => rfl) (fun _ _ => rfl)
        (fun _ _ _ => rfl) (fun _ => rfl) ⟨fields, hrecord, hblock⟩ ⟨fields', hrecord', hblock'⟩
    | _ => cases ht

theorem Written.siblings {ss : List Step} {ps ps' : List Part}
    (hraw : ∀ s ∈ ss, s.isRawJump = false) (h : Written place ss ps)
    (h' : Written place' ss ps') : List.Forall₂ (Sibling place place') ps ps' := by
  induction h generalizing ps' with
  | nil =>
    cases h'
    exact .nil
  | label l _ ih =>
    cases h' with
    | label _ h' => exact ih (fun s hs => hraw s (List.mem_cons_of_mem _ hs)) h'
    | record hs' =>
      obtain ⟨_, hrecord, -⟩ := hs'
      cases hrecord
  | record hs _ ih =>
    cases h' with
    | label =>
      obtain ⟨_, hrecord, -⟩ := hs
      cases hrecord
    | record hs' h' =>
      exact .cons (hs.sibling (hraw _ List.mem_cons_self) hs')
        (ih (fun s hs => hraw s (List.mem_cons_of_mem _ hs)) h')

/-- The parts of steps one behind the other. -/
theorem Written.split {f g : List Step} {ps : List Part} (h : Written place (f ++ g) ps) :
    ∃ front back, ps = front ++ back ∧ Written place f front ∧ Written place g back ∧
      front.length = f.countP isRecord := by
  induction f generalizing ps with
  | nil => exact ⟨[], ps, rfl, .nil, h, rfl⟩
  | cons s f ih =>
    rw [List.cons_append] at h
    cases h with
    | label l h =>
      obtain ⟨front, back, rfl, hf, hg, hlength⟩ := ih h
      exact ⟨front, back, rfl, .label l hf, hg, hlength⟩
    | @record _ p _ _ hs h =>
      obtain ⟨front, back, rfl, hf, hg, hlength⟩ := ih h
      obtain ⟨_, hrecord, -⟩ := id hs
      refine ⟨p :: front, back, rfl, .record hs hf, hg, ?_⟩
      rw [List.countP_cons_of_pos (isRecord_of_record? hrecord), List.length_cons, hlength]

theorem recordsBefore_le {l : String} {ss : List Step} {k : Nat}
    (h : recordsBefore l ss = some k) : k ≤ ss.countP isRecord := by
  induction ss generalizing k with
  | nil => cases h
  | cons s ss ih =>
    by_cases hs : s.isRecord = true
    · rw [recordsBefore_cons hs] at h
      obtain ⟨n, hn, rfl⟩ := Option.map_eq_some_iff.1 h
      rw [List.countP_cons_of_pos hs]
      exact Nat.succ_le_succ (ih hn)
    · cases s with
      | label m =>
        simp only [recordsBefore] at h
        split at h
        · cases h
          exact Nat.zero_le _
        · exact Nat.le_trans (ih h) (List.countP_cons ▸ Nat.le_add_right _ _)
      | _ => exact absurd rfl hs

/-! ### Places -/

theorem length_spell_of_siblings {ps ps' : List Part}
    (h : List.Forall₂ (Sibling place place') ps ps') :
    (spell ps').length = (spell ps).length := by
  induction h with
  | nil => rfl
  | cons hp _ ih =>
    rw [spell, spell, List.length_append, List.length_append, length_bytesOf, length_bytesOf,
      hp.length, ih]

theorem placeIn_rows (ss : List Step) (ps : List Part) (l : String) :
    placeIn ss (rows 0 ps) (spell ps).length l =
      (recordsBefore l ss).map fun k => (spell (ps.take k)).length :=
  congrArg (fun f => (recordsBefore l ss).map f) (funext (landing_rows ps))

/-- Where a boundary of a program stands when so many bytes are inserted between its parts: there,
up to the insertion, and so many bytes behind, from the insertion on.  The boundary at the insertion
stands on both sides of it. -/
structure Relocated (front back : List Part) (size pc pc' : Nat) : Prop where
  boundary : ∃ f b, front ++ back = f ++ b ∧ pc = (spell f).length
  moved : pc ≤ (spell front).length ∧ pc' = pc ∨ (spell front).length ≤ pc ∧ pc' = pc + size

end Step

/-! ### What is fetched from a spelling -/

namespace Walk

open Step

variable {t : Terms} {place place' : String → Option Nat} {p p' : Part} {R : Nat → Nat → Prop}
  {program program' : Bytes} {r r' : Record} {i : Instruction}

theorem nextPlace_of_stay (h : i.destination? t.query = none) :
    nextPlace (t.reading program) r i = .ok r.next := by
  rw [nextPlace, Terms.query_reading, h]

theorem nextPlace_of_leave {target : Nat} (h : i.destination? t.query = some target)
    (hle : target ≤ program.length) : nextPlace (t.reading program) r i =
      if target ≤ r.pc then .error (.program (.badJump r.pc target)) else .ok target := by
  rw [nextPlace, Terms.query_reading, h]
  simp only [Terms.program_reading, Nat.not_lt.2 hle, or_false]

theorem nextPlace_agree_of_plain (h : i.target? = none) (hnext : R r.next r'.next) :
    (nextPlace (t.reading program) r i).Agree R (nextPlace (t.reading program') r' i) := by
  rw [nextPlace_of_stay (Instruction.destination?_of_plain h),
    nextPlace_of_stay (Instruction.destination?_of_plain h)]
  exact .answer hnext

/-- Jumps to places within both programs, back in both or ahead in both. -/
theorem nextPlace_agree_of_jump {target target' : Nat} (htarget : i.target? = some target)
    (hle : target ≤ program.length) (hle' : target' ≤ program'.length)
    (hback : target' ≤ r'.pc ↔ target ≤ r.pc) (hR : R target target')
    (hnext : R r.next r'.next) :
    (nextPlace (t.reading program) r i).Agree R
      (nextPlace (t.reading program') r' (i.retarget target')) := by
  have hmoved := Instruction.destination?_retarget (q := t.query) target' i
  rcases Instruction.destination?_of_target (q := t.query) htarget with hleave | hstay
  · rw [hleave] at hmoved
    rw [nextPlace_of_leave hleave hle, nextPlace_of_leave hmoved hle']
    by_cases h : target ≤ r.pc
    · rw [if_pos h, if_pos (hback.2 h)]
      exact .fault rfl
    · rw [if_neg h, if_neg (mt hback.1 h)]
      exact .answer hR
  · rw [hstay] at hmoved
    rw [nextPlace_of_stay hstay, nextPlace_of_stay hmoved]
    exact .answer hnext

theorem fetch_of_fits (h : Fits t.instructions p) (f b : List Part) :
    fetch (t.reading (spell (f ++ p :: b))) (spell f).length = (do
      let i ← Instruction.parse (Opcode.ofNumber p.1.toNat) p.2
      return ⟨row (spell f).length p, i,
        ← nextPlace (t.reading (spell (f ++ p :: b))) (row (spell f).length p) i⟩) :=
  congrArg (· >>= _) (decodeAt_of_fits h f b)

theorem fetch_of_unregistered (hshort : p.2.length ≤ 255)
    (h : p.1.toNat ∉ t.instructions.numbers) (f b : List Part) :
    fetch (t.reading (spell (f ++ p :: b))) (spell f).length =
      .error (.program (.unknownOpcode (spell f).length p.1.toNat)) :=
  congrArg (· >>= _) (decodeAt_of_unregistered hshort h f b)

/-- **Siblings** are fetched alike: both are unknown or do not parse, or both go on to related
places or jump to them, unless both jump back. -/
theorem fetch_agree {f b f' b' : List Part} (hp : Sibling place place' p p')
    (hshort : p.2.length ≤ 255)
    (hnext : R ((spell f).length + (bytesOf p).length) ((spell f').length + (bytesOf p').length))
    (hplaces : ∀ {l : String} {target target' : Nat}, place l = some target →
      place' l = some target' → R target target' ∧ target ≤ (spell (f ++ p :: b)).length ∧
        target' ≤ (spell (f' ++ p' :: b')).length ∧
        (target' ≤ (spell f').length ↔ target ≤ (spell f).length)) :
    (fetch (t.reading (spell (f ++ p :: b))) (spell f).length).Agree (Fetched.Alike R)
      (fetch (t.reading (spell (f' ++ p' :: b'))) (spell f').length) := by
  have hshort' : p'.2.length ≤ 255 := hp.length ▸ hshort
  have hcode : p'.1 = p.1 := hp.code
  rw [← next_row, ← next_row] at hnext
  by_cases hregistered : p.1.toNat ∈ t.instructions.numbers
  · rw [fetch_of_fits ⟨hregistered, hshort⟩, fetch_of_fits ⟨hcode ▸ hregistered, hshort'⟩]
    cases hp with
    | same hplain =>
      cases hparse : Instruction.parse (Opcode.ofNumber p.1.toNat) p.2 with
      | error g => exact .fault rfl
      | ok i =>
        have hnone : i.target? = none := Instruction.target?_of_parse hparse hplain
        exact (nextPlace_agree_of_plain hnone hnext).bind fun _ _ _ _ h =>
          .answer ⟨⟨0, (Instruction.retarget_of_plain hnone 0).symm⟩, h⟩
    | @jump code args args' i l target target' _ hparse hparse' htarget hl hl' =>
      obtain ⟨hR, hle, hle', hback⟩ := hplaces hl hl'
      dsimp only
      rw [hparse, hparse']
      exact (nextPlace_agree_of_jump htarget hle hle' hback hR hnext).bind
        fun _ _ _ _ h => .answer ⟨⟨target', rfl⟩, h⟩
  · rw [fetch_of_unregistered hshort hregistered,
      fetch_of_unregistered hshort' (hcode ▸ hregistered)]
    exact .fault rfl

end Walk

/-! ### Programs with a salt more -/

namespace Assembly

open Step Walk

variable {place place' : String → Option Nat} {ps qs ps' qs' : List Part} {salt : Part}

/-- The parts of two programs, the second with a salt in between. -/
structure Inserted (place place' : String → Option Nat) (ps qs ps' qs' : List Part) (salt : Part) :
    Prop where
  front : List.Forall₂ (Sibling place place') ps ps'
  back : List.Forall₂ (Sibling place place') qs qs'
  short : ∀ p ∈ ps ++ qs, p.2.length ≤ 255
  isSalt : salt.1.toNat = Opcode.salt.number
  saltShort : salt.2.length ≤ 255
  places : ∀ {l : String} {target target' : Nat}, place l = some target →
    place' l = some target' → Relocated ps qs (bytesOf salt).length target target'

/-- The parts of a piece of a list, or of what stands in front of it and of its first part. -/
theorem exists_of_append {f b : List Part} (h : ps ++ qs = f ++ b) :
    (∃ p c, ps = f ++ p :: c ∧ b = p :: c ++ qs) ∨ ∃ c, f = ps ++ c ∧ qs = c ++ b := by
  rcases List.append_eq_append_iff.1 h with hback | ⟨c, hps, hb⟩
  · exact Or.inr hback
  · cases c with
    | nil => exact Or.inr ⟨[], by rw [hps, List.append_nil, List.append_nil], hb.symm⟩
    | cons p c => exact Or.inl ⟨p, c, hps, hb⟩

theorem exists_sibling {f b : List Part} {p : Part}
    (h : List.Forall₂ (Sibling place place') (f ++ p :: b) ps') :
    ∃ f' p' b', ps' = f' ++ p' :: b' ∧ List.Forall₂ (Sibling place place') f f' ∧
      Sibling place place' p p' := by
  induction f generalizing ps' with
  | nil =>
    obtain ⟨p', b', hp, -, rfl⟩ := List.forall₂_cons_left_iff.1 h
    exact ⟨[], p', b', rfl, .nil, hp⟩
  | cons q f ih =>
    obtain ⟨q', rest, hq, hrest, rfl⟩ := List.forall₂_cons_left_iff.1 h
    obtain ⟨f', p', b', rfl, hf, hp⟩ := ih hrest
    exact ⟨q' :: f', p', b', rfl, .cons hq hf, hp⟩

namespace Inserted

variable (h : Inserted place place' ps qs ps' qs' salt)
include h

theorem length_spell :
    (spell (ps' ++ salt :: qs')).length = (spell (ps ++ qs)).length + (bytesOf salt).length := by
  rw [spell_append, spell_append, spell, List.length_append, List.length_append,
    List.length_append, length_spell_of_siblings h.front, length_spell_of_siblings h.back]
  omega

/-- Related places lie within their programs. -/
theorem within {pc pc' : Nat} (hpc : Relocated ps qs (bytesOf salt).length pc pc') :
    pc ≤ (spell (ps ++ qs)).length ∧ pc' ≤ (spell (ps' ++ salt :: qs')).length := by
  obtain ⟨⟨f, b, hsplit, rfl⟩, hmoved⟩ := hpc
  rw [h.length_spell, hsplit, spell_append, List.length_append]
  omega

/-- At siblings that are moved alike the same is fetched. -/
theorem same {t : Terms} {f b f' b' : List Part} {p p' : Part}
    (hsplit : ps ++ qs = f ++ p :: b) (hsplit' : ps' ++ salt :: qs' = f' ++ p' :: b')
    (hp : Sibling place place' p p')
    (hmoved : (spell f).length + (bytesOf p).length ≤ (spell ps).length ∧
        (spell f').length = (spell f).length ∨
      (spell ps).length ≤ (spell f).length ∧
        (spell f').length = (spell f).length + (bytesOf salt).length) :
    Corresponds (t.reading (spell (ps ++ qs))) (t.reading (spell (ps' ++ salt :: qs')))
      (Relocated ps qs (bytesOf salt).length) (spell f).length (spell f').length := by
  have hpos : 0 < (bytesOf p).length := Nat.zero_lt_succ _
  have hsize : (bytesOf p').length = (bytesOf p).length := by
    rw [length_bytesOf, length_bytesOf, hp.length]
  have hshort : p.2.length ≤ 255 := h.short p (hsplit ▸ List.mem_append_right f List.mem_cons_self)
  refine .same (hsplit ▸ length_spell_lt f b p) (hsplit' ▸ length_spell_lt f' b' p') ?_
  have hnext : Relocated ps qs (bytesOf salt).length ((spell f).length + (bytesOf p).length)
      ((spell f').length + (bytesOf p').length) := by
    refine ⟨⟨f ++ [p], b, ?_, ?_⟩, ?_⟩
    · rw [hsplit, List.append_assoc, List.singleton_append]
    · rw [spell_append, List.length_append, spell, spell, List.append_nil]
    · omega
  rw [hsplit, hsplit']
  refine fetch_agree hp hshort hnext fun hl hl' => ?_
  have hplaces := h.places hl hl'
  obtain ⟨hle, hle'⟩ := h.within hplaces
  refine ⟨hplaces, hsplit ▸ hle, hsplit' ▸ hle', ?_⟩
  have := hplaces.moved
  omega

/-- The salt leads behind itself. -/
theorem fetch_salt {t : Terms} (hset : Opcode.salt.number ∈ t.instructions.numbers) :
    ∃ x, fetch (t.reading (spell (ps' ++ salt :: qs'))) (spell ps').length = .ok x ∧
      (∃ bytes, x.instruction = .salt bytes) ∧
      x.next = (spell ps').length + (bytesOf salt).length := by
  have hparse : Instruction.parse (Opcode.ofNumber salt.1.toNat) salt.2 = .ok (.salt salt.2) := by
    rw [code_of_number (by decide) (congrArg Int.ofNat h.isSalt)]
    rfl
  refine ⟨⟨row (spell ps').length salt, .salt salt.2, _⟩, ?_, ⟨salt.2, rfl⟩, next_row _ _⟩
  rw [fetch_of_fits ⟨h.isSalt ▸ hset, h.saltShort⟩, hparse]
  rfl

/-- **Related boundaries** correspond: the same stands at both, or the salt at the second. -/
theorem corresponds {t : Terms} (hset : Opcode.salt.number ∈ t.instructions.numbers) {pc pc' : Nat}
    (hpc : Relocated ps qs (bytesOf salt).length pc pc') :
    Corresponds (t.reading (spell (ps ++ qs))) (t.reading (spell (ps' ++ salt :: qs')))
      (Relocated ps qs (bytesOf salt).length) pc pc' := by
  obtain ⟨⟨f, b, hsplit, rfl⟩, hmoved⟩ := id hpc
  rcases exists_of_append hsplit with ⟨p, c, hps, hb⟩ | ⟨c, hf, hqs⟩
  · -- in front of the salt
    obtain ⟨f', p', c', hps', hf, hp⟩ := exists_sibling (hps ▸ h.front)
    have hlength : (spell ps).length =
        (spell f).length + ((bytesOf p).length + (spell c).length) := by
      rw [hps, spell_append, spell, List.length_append, List.length_append]
    have hpos : 0 < (bytesOf p).length := Nat.zero_lt_succ _
    have hsame : (spell f').length = (spell f).length := length_spell_of_siblings hf
    obtain rfl : pc' = (spell f').length := by omega
    have hsplit' : ps' ++ salt :: qs' = f' ++ p' :: (c' ++ salt :: qs') := by
      rw [hps', List.append_assoc, List.cons_append]
    exact h.same (hsplit.trans (congrArg (f ++ ·) hb)) hsplit' hp (Or.inl ⟨by omega, hsame⟩)
  · have hlength : (spell f).length = (spell ps).length + (spell c).length := by
      rw [hf, spell_append, List.length_append]
    have hfront : (spell ps').length = (spell ps).length := length_spell_of_siblings h.front
    rcases hmoved with ⟨hle, rfl⟩ | ⟨hle, rfl⟩
    · -- at the salt
      obtain ⟨x, hx, hsalt, hnext⟩ := h.fetch_salt hset
      have hstart : (spell f).length = (spell ps').length := by omega
      refine .salted ?_ (hstart ▸ hx) hsalt ⟨⟨f, b, hsplit, rfl⟩, Or.inr ⟨by omega, by omega⟩⟩
      exact hstart ▸ length_spell_lt ps' qs' salt
    · -- behind the salt
      cases b with
      | nil =>
        rw [List.append_nil] at hsplit
        refine .ended (hsplit ▸ Nat.le_refl _) ?_
        exact Nat.le_of_eq (h.length_spell.trans (hsplit ▸ rfl))
      | cons p b =>
        obtain ⟨c', p', b', hqs', hc, hp⟩ := exists_sibling (hqs ▸ h.back)
        have hsplit' : ps' ++ salt :: qs' = (ps' ++ salt :: c') ++ p' :: b' := by
          rw [hqs', List.append_assoc, List.cons_append]
        have hmoved : (spell (ps' ++ salt :: c')).length =
            (spell f).length + (bytesOf salt).length := by
          rw [spell_append, spell, List.length_append, List.length_append, hfront, hlength,
            length_spell_of_siblings hc]
          omega
        rw [← hmoved]
        exact h.same hsplit hsplit' hp (Or.inr ⟨hle, hmoved⟩)

end Inserted

/-- A label stands at the same part in both programs. -/
theorem relocated_of_placeIn {front back : List Step} {step : Step} (hstep : step.isRecord = true)
    (hfront : List.Forall₂ (Sibling place place') ps ps')
    (hback : List.Forall₂ (Sibling place place') qs qs') (hps : ps.length = front.countP isRecord)
    {l : String} {target target' : Nat}
    (h : placeIn (front ++ back) (rows 0 (ps ++ qs)) (spell (ps ++ qs)).length l = some target)
    (h' : placeIn (front ++ step :: back) (rows 0 (ps' ++ salt :: qs'))
      (spell (ps' ++ salt :: qs')).length l = some target') :
    Relocated ps qs (bytesOf salt).length target target' := by
  have hps' : ps'.length = front.countP isRecord := hfront.length_eq ▸ hps
  rw [placeIn_rows, recordsBefore_append] at h h'
  rw [recordsBefore_cons hstep] at h'
  obtain ⟨k, hk, rfl⟩ := Option.map_eq_some_iff.1 h
  obtain ⟨k', hk', rfl⟩ := Option.map_eq_some_iff.1 h'
  refine ⟨⟨_, _, (List.take_append_drop k (ps ++ qs)).symm, rfl⟩, ?_⟩
  cases hbefore : recordsBefore l front with
  | some n =>
    rw [hbefore, Option.some_or] at hk hk'
    -- set in front of the salt, perhaps just in front of it
    have hle := recordsBefore_le hbefore
    rw [← Option.some.inj hk, ← Option.some.inj hk', List.take_append_of_le_length (hps ▸ hle),
      List.take_append_of_le_length (hps' ▸ hle)]
    have hwithin : (spell (ps.take n)).length ≤ (spell ps).length := by
      have hsplit := congrArg (fun parts => (spell parts).length) (List.take_append_drop n ps)
      simp only [spell_append, List.length_append] at hsplit
      omega
    exact Or.inl ⟨hwithin, length_spell_of_siblings (List.forall₂_take n hfront)⟩
  | none =>
    rw [hbefore, Option.none_or] at hk hk'
    obtain ⟨n, hn, rfl⟩ := Option.map_eq_some_iff.1 hk
    rw [hn] at hk'
    cases hk'
    rw [← hps, List.take_length_add_append, hps, ← hps', List.take_length_add_append,
      List.take_succ_cons, spell_append, spell_append, spell, List.length_append,
      List.length_append, List.length_append, length_spell_of_siblings hfront,
      length_spell_of_siblings (List.forall₂_take n hback)]
    omega

/-- **Two programs that are built**, the second with a salt more. -/
theorem inserted_of_assemble {front back : List Step} {bytes : Datum} {out salted : Bytes}
    (hraw : ∀ s ∈ front ++ back, s.isRawJump = false) (h : assemble (front ++ back) = .ok out)
    (h' : assemble (front ++ .salt bytes :: back) = .ok salted) :
    ∃ place place' ps qs ps' qs' salt, Inserted place place' ps qs ps' qs' salt ∧
      out = spell (ps ++ qs) ∧ salted = spell (ps' ++ salt :: qs') := by
  obtain ⟨parts, hwritten, hshort, rfl⟩ := written_of_assemble h
  obtain ⟨parts', hwritten', hshort', rfl⟩ := written_of_assemble h'
  obtain ⟨ps, qs, rfl, hps, hqs, hlength⟩ := hwritten.split
  obtain ⟨ps', rest, rfl, hps', hrest, -⟩ := hwritten'.split
  cases hrest with
  | @record _ salt _ qs' hsalt hqs' =>
    obtain ⟨_, hrecord, -⟩ := hsalt
    obtain ⟨hcode, -⟩ := Prod.mk.inj (Option.some.inj hrecord)
    have hfront := hps.siblings (fun s hs => hraw s (List.mem_append_left _ hs)) hps'
    have hback := hqs.siblings (fun s hs => hraw s (List.mem_append_right _ hs)) hqs'
    exact ⟨_, _, ps, qs, ps', qs', salt, ⟨hfront, hback, hshort, Int.ofNat_inj.1 hcode.symm,
      hshort' salt (List.mem_append_right _ List.mem_cons_self),
      relocated_of_placeIn rfl hfront hback hlength⟩, rfl, rfl⟩

end Assembly

namespace Walk

/-- **A salt** only changes the identity of a program, where salts are registered: walks of the
program with it and of the one without it, from their begin and from the same sheet, both fail, with
faults of one kind, or both end, with the same figures and the same state, and both with a swap
computed or not and halted or not. -/
theorem salt_only_changes_identity {t : Terms} {front back : List Step} {bytes : Datum}
    {out salted : Bytes} (hset : Opcode.salt.number ∈ t.instructions.numbers)
    (hraw : ∀ s ∈ front ++ back, s.isRawJump = false)
    (h : Assembly.assemble (front ++ back) = .ok out)
    (h' : Assembly.assemble (front ++ .salt bytes :: back) = .ok salted) (s : Sheet) :
    (through (t.reading out) 0 s).Agree (fun w w' => w.sheet.Alike w'.sheet)
      (through (t.reading salted) 0 s) := by
  obtain ⟨place, place', ps, qs, ps', qs', salt, hinserted, rfl, rfl⟩ :=
    Assembly.inserted_of_assemble hraw h h'
  have hstart : Step.Relocated ps qs (bytesOf salt).length 0 0 :=
    ⟨⟨[], ps ++ qs, rfl, rfl⟩, Or.inl ⟨Nat.zero_le _, rfl⟩⟩
  rw [through_zero, through_zero]
  exact run_agree (fun _ _ hpc => hinserted.corresponds hset hpc) hstart ⟨rfl, rfl, rfl, rfl⟩

/-- A fee of 30 basis points, and a swap behind a label. -/
def feeAndSwap : List Step :=
  [.flatFeeIn (.int 30), .label "swap", .constantProduct (.int 1000000000000000000)]

/-- The program of a jump over the fee. -/
def jumpOverFee : Bytes := [1, 2, 0, 8] ++ jumpFeeSwap.drop 6

/-- The program with a salt behind the jump, which goes to another place then. -/
def jumpOverSaltAndFee : Bytes := [1, 2, 0, 11, 8, 1, 7] ++ jumpFeeSwap.drop 6

/-- Walks for an input of 7 on balances of 1000 each. -/
theorem salt_only_changes_identity_jumpOverFee :
    Opcode.salt.number ∈ jumpFeeSwapTerms.instructions.numbers ∧
      (∀ s ∈ [.jump "swap"] ++ feeAndSwap, s.isRawJump = false) ∧
      Assembly.assemble ([.jump "swap"] ++ feeAndSwap) = .ok jumpOverFee ∧
      Assembly.assemble ([.jump "swap"] ++ .salt (.bytes [7]) :: feeAndSwap) =
        .ok jumpOverSaltAndFee ∧
      ∃ w, through (jumpFeeSwapTerms.reading jumpOverFee) 0
          (.start ⟨1000, 1000, 7, 0⟩ (Store.empty.overlay "")) = .ok w ∧
        ∃ w', through (jumpFeeSwapTerms.reading jumpOverSaltAndFee) 0
          (.start ⟨1000, 1000, 7, 0⟩ (Store.empty.overlay "")) = .ok w' ∧
          w.sheet.Alike w'.sheet := by
  have hset : Opcode.salt.number ∈ jumpFeeSwapTerms.instructions.numbers := by decide
  have hraw : ∀ s ∈ [.jump "swap"] ++ feeAndSwap, s.isRawJump = false := by decide
  have hout : Assembly.assemble ([.jump "swap"] ++ feeAndSwap) = .ok jumpOverFee :=
    Outcome.eq_ok_of_toOption (by decide +kernel)
  have hsalted : Assembly.assemble ([.jump "swap"] ++ .salt (.bytes [7]) :: feeAndSwap) =
      .ok jumpOverSaltAndFee := Outcome.eq_ok_of_toOption (by decide +kernel)
  have hsome : (through (jumpFeeSwapTerms.reading jumpOverFee) 0
      (.start ⟨1000, 1000, 7, 0⟩ (Store.empty.overlay ""))).toOption.isSome = true := by
    decide +kernel
  obtain ⟨w, hw⟩ := Option.isSome_iff_exists.1 hsome
  replace hw := Outcome.eq_ok_of_toOption hw
  have hagree := salt_only_changes_identity hset hraw hout hsalted
    (.start ⟨1000, 1000, 7, 0⟩ (Store.empty.overlay ""))
  rw [hw] at hagree
  exact ⟨hset, hraw, hout, hsalted, w, hw, hagree.answers⟩

end Walk

end SwapMachine
