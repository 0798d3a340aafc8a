import DurableRules.Engine.Counting
import DurableRules.Proofs.Engine.Reachable

namespace DurableRules

-- An operation with words goes as the one without a bound where the numbers
-- fit, and where they do not a program with checks stops.
structure Build.Tracks (b : Build) {α : Type} (fits : Prop) (plain : α) (word : Option α) : Prop where
  agrees : fits → word = some plain
  stops : b = .checked → ¬ fits → word = none

namespace Build.Tracks
variable {b : Build} {α β : Type} {fits more : Prop} {plain : α} {word : Option α}

theorem pure (held : fits) (plain : α) : b.Tracks fits plain (some plain) := ⟨fun _ => rfl,fun _ none => absurd held none⟩

theorem map (tracks : b.Tracks fits plain word) (f : α → β) : b.Tracks fits (f plain) (word.map f) :=
  ⟨fun held => by rw [tracks.agrees held]; rfl,fun checked none => by rw [tracks.stops checked none]; rfl⟩

theorem iff (tracks : b.Tracks fits plain word) (same : fits ↔ more) : b.Tracks more plain word :=
  ⟨fun held => tracks.agrees (same.mpr held),fun checked none => tracks.stops checked fun held => none (same.mp held)⟩

-- What comes later can only fit where what came first did.
theorem bind {last : β} {f : α → Option β} (first : b.Tracks fits plain word) (later : fits → b.Tracks more last (f plain))
    (back : more → fits) : b.Tracks more last (word >>= f) := by
  constructor
  · intro held
    rw [first.agrees (back held)]
    exact (later (back held)).agrees held
  · intro checked none
    by_cases held : fits
    · rw [first.agrees held]
      exact (later held).stops checked none
    · rw [first.stops checked held]
      rfl

theorem fold {act : α → β → Option α} {change : α → β → α} {motive : α → Prop}
    (each : ∀ s item, motive s → b.Tracks (motive (change s item)) (change s item) (act s item))
    (back : ∀ s item, motive (change s item) → motive s) (items : List β) {s : α} (start : motive s) :
    b.Tracks (motive (items.foldl change s)) (items.foldl change s) (items.foldlM act s) := by
  induction items generalizing s with
  | nil => exact .pure start s
  | cons item rest ih =>
    rw [List.foldlM_cons,List.foldl_cons]
    refine (each s item start).bind ih fun held => ?_
    exact List.foldlRecOn (motive := fun later => motive later → motive (change s item)) rest change id
      (fun later earlier item _ held => earlier (back later item held)) held

-- A program with checks that goes on has done what is done without a bound.
theorem went {plain : α} {word : Option α} (tracks : checked.Tracks fits plain word) {result : α} (done : word = some result) :
    fits ∧ plain = result := by
  by_cases held : fits
  · exact ⟨held,Option.some.inj ((tracks.agrees held).symm.trans done)⟩
  · cases (tracks.stops rfl held).symm.trans done

end Build.Tracks

theorem Build.next_tracks (b : Build) (count : Nat) : b.Tracks (count + 1 < wordLimit) (count + 1) (b.next count) := by
  unfold Build.next
  refine ⟨fun held => if_pos held,fun checked past => ?_⟩
  rw [if_neg past,checked]

theorem Roster.allocateIn_tracks (b : Build) (r : Roster) :
    b.Tracks (r.allocate.2.nextHandle < wordLimit) r.allocate (r.allocateIn b) :=
  (b.next_tracks r.nextHandle).bind (fun held => .pure held _) id

theorem Roster.bumpIn_tracks (b : Build) (r : Roster) (handle : Handle) :
    b.Tracks (∀ version, r.versions.get? handle = some version → version + 1 < wordLimit) (r.bump handle)
      (r.bumpIn b handle) := by
  unfold bump bumpIn
  cases r.versions.get? handle with
  | none => exact .pure (fun _ none => nomatch none) _
  | some version =>
    exact (b.next_tracks version).bind (fun held => .pure (fun _ same => Option.some.inj same ▸ held) _) fun all => all _ rfl

namespace Engine
variable {b : Build} {e next : Engine} {handle : Handle} {fact : Fact}

structure Within (e : Engine) : Prop where
  handle : e.roster.nextHandle < wordLimit
  sequence : e.network.nextSequence < wordLimit

structure Onwards (e next : Engine) : Prop where
  handle : e.roster.nextHandle ≤ next.roster.nextHandle
  sequence : e.network.nextSequence ≤ next.network.nextSequence

structure Unmoved (e next : Engine) : Prop where
  handle : next.roster.nextHandle = e.roster.nextHandle
  sequence : next.network.nextSequence = e.network.nextSequence

section Numbers
variable {middle : Engine}

theorem Onwards.trans (one : Onwards e middle) (two : Onwards middle next) : Onwards e next :=
  ⟨Nat.le_trans one.handle two.handle,Nat.le_trans one.sequence two.sequence⟩

theorem Onwards.back (onwards : Onwards e next) (within : next.Within) : e.Within :=
  ⟨Nat.lt_of_le_of_lt onwards.handle within.handle,Nat.lt_of_le_of_lt onwards.sequence within.sequence⟩

theorem Unmoved.trans (one : Unmoved e middle) (two : Unmoved middle next) : Unmoved e next :=
  ⟨two.handle.trans one.handle,two.sequence.trans one.sequence⟩

theorem Unmoved.onwards (unmoved : Unmoved e next) : Onwards e next :=
  ⟨Nat.le_of_eq unmoved.handle.symm,Nat.le_of_eq unmoved.sequence.symm⟩

theorem Unmoved.within (unmoved : Unmoved e next) (within : e.Within) : next.Within :=
  ⟨unmoved.handle ▸ within.handle,unmoved.sequence ▸ within.sequence⟩

end Numbers

section Scheduling

theorem consider_sequence (e : Engine) (candidate : Rule × List Handle) :
    e.network.nextSequence ≤ (e.consider candidate).network.nextSequence := by
  unfold consider
  split
  · exact Nat.le_refl _
  · exact Nat.le_succ _

theorem propagate_sequence (e : Engine) (handle : Handle) :
    e.network.nextSequence ≤ (e.propagate handle).network.nextSequence := by
  unfold propagate
  split
  · exact Nat.le_refl _
  · exact List.foldlRecOn (motive := fun next => e.network.nextSequence ≤ next.network.nextSequence) _ consider
      (Nat.le_refl _) fun next held candidate _ => Nat.le_trans held (consider_sequence next candidate)

theorem enqueueIn_tracks (b : Build) (e : Engine) (a : Activation) :
    b.Tracks ((e.enqueue a).network.nextSequence < wordLimit) (e.enqueue a) (e.enqueueIn b a) :=
  (b.next_tracks e.network.nextSequence).bind (fun held => .pure held _) id

theorem considerIn_tracks (b : Build) (candidate : Rule × List Handle) (fits : e.network.nextSequence < wordLimit) :
    b.Tracks ((e.consider candidate).network.nextSequence < wordLimit) (e.consider candidate) (e.considerIn b candidate) := by
  unfold consider considerIn
  cases e.due candidate with
  | none => exact .pure fits e
  | some a => exact e.enqueueIn_tracks b a

theorem propagateIn_tracks (b : Build) (handle : Handle) (fits : e.network.nextSequence < wordLimit) :
    b.Tracks ((e.propagate handle).network.nextSequence < wordLimit) (e.propagate handle) (e.propagateIn b handle) := by
  unfold propagate propagateIn
  cases e.facts.get? handle with
  | none => exact .pure fits e
  | some fact =>
    exact .fold (motive := fun next => next.network.nextSequence < wordLimit)
      (fun _ candidate held => considerIn_tracks b candidate held)
      (fun next candidate held => Nat.lt_of_le_of_lt (consider_sequence next candidate) held) _ fits

end Scheduling

section Changing

theorem insert_onwards (e : Engine) (fact : Fact) : Onwards e (e.insert fact).2 := by
  refine ⟨?_,propagate_sequence ({ e with roster := e.roster.allocate.2 }.attach e.roster.nextHandle fact) _⟩
  rw [(insert_rest e fact).2.1]
  exact Nat.le_succ _

theorem insertIn_tracks (b : Build) (fact : Fact) (within : e.Within) :
    b.Tracks (e.insert fact).2.Within (e.insert fact) (e.insertIn b fact) := by
  have handle : (e.insert fact).2.roster.nextHandle = e.roster.allocate.2.nextHandle := by rw [(insert_rest e fact).2.1]
  refine (e.roster.allocateIn_tracks b).bind (fun held => ?_) fun held => handle ▸ held.handle
  have entered := propagateIn_tracks (e := { e with roster := e.roster.allocate.2 }.attach e.roster.nextHandle fact) b
    e.roster.nextHandle within.sequence
  exact entered.bind (fun fits => .pure ⟨handle ▸ held,fits⟩ _) Within.sequence

theorem withdraw_sequence (e : Engine) (handle : Handle) :
    (e.withdraw handle).network.nextSequence = e.network.nextSequence := (detach_other (e.cancel handle) handle).2.2.2.2.1

theorem updateIn_tracks (b : Build) (handle : Handle) (fact : Fact) (within : e.Within) :
    b.Tracks (∀ next, e.update handle fact = .ok next → next.Within ∧
      ∀ version, e.roster.versions.get? handle = some version → version + 1 < wordLimit)
      (e.update handle fact) (e.updateIn b handle fact) := by
  have versions : (e.withdraw handle).roster.versions = e.roster.versions := congrArg Roster.versions (withdraw_roster e handle)
  have next : ((e.withdraw handle).roster.bump handle).2.nextHandle = e.roster.nextHandle := by
    rw [(Roster.bump_other _ handle).2.1,withdraw_roster]
  unfold update updateIn
  cases e.roster.isLive handle with
  | false => exact .pure (fun _ done => nomatch done) _
  | true =>
    refine ((e.withdraw handle).roster.bumpIn_tracks b handle).bind (fun bumped => ?_) fun all => versions ▸ (all _ rfl).2
    have entered := propagateIn_tracks (e :=
      { e.withdraw handle with roster := ((e.withdraw handle).roster.bump handle).2 }.attach handle fact) b handle
      ((withdraw_sequence e handle).symm ▸ within.sequence)
    refine entered.bind (fun fits => .pure (fun last done => ?_) _) fun all => (all _ rfl).1.sequence
    cases done
    have same := enter_same { e.withdraw handle with roster := ((e.withdraw handle).roster.bump handle).2 } handle fact
    exact ⟨⟨(congrArg Roster.nextHandle same.roster).trans next ▸ within.handle,fits⟩,versions ▸ bumped⟩

theorem withdraw_unmoved (e : Engine) (handle : Handle) : Unmoved e (e.withdraw handle) :=
  ⟨congrArg Roster.nextHandle (withdraw_roster e handle),withdraw_sequence e handle⟩

theorem delete_unmoved (deleted : e.delete handle = .ok (fact,next)) : Unmoved e next := by
  obtain ⟨_,_,rfl⟩ := delete_ok deleted
  exact ⟨(withdraw_unmoved e handle).handle,(withdraw_unmoved e handle).sequence⟩

theorem deleteLive_unmoved (e : Engine) (handle : Handle) : Unmoved e (e.deleteLive handle) := by
  have withdrawn := withdraw_unmoved e handle
  unfold deleteLive
  rcases retract_cases e handle with ⟨_,went⟩ | ⟨_,_,went⟩ | ⟨_,_,_,went⟩
  · rw [went]
    exact ⟨rfl,rfl⟩
  · rw [went]
    exact withdrawn
  · rw [went]
    exact ⟨withdrawn.handle,withdrawn.sequence⟩

end Changing

section Firing

theorem foldl_unmoved {α : Type} {change : Engine → α → Engine} (each : ∀ e item, Unmoved e (change e item))
    (items : List α) : Unmoved e (items.foldl change e) :=
  List.foldlRecOn items change ⟨rfl,rfl⟩ fun _ held item _ => held.trans (each _ item)

theorem inserts_onwards (e : Engine) (facts : List Fact) : Onwards e (facts.foldl (fun e fact => (e.insert fact).2) e) :=
  List.foldlRecOn (motive := Onwards e) facts _ ⟨Nat.le_refl _,Nat.le_refl _⟩ fun _ held fact _ =>
    held.trans (insert_onwards _ fact)

theorem pushes_unmoved (e : Engine) (entries : List (String × Value)) : Unmoved e (entries.foldl pushGlobal e) :=
  foldl_unmoved (fun e entry => (⟨rfl,rfl⟩ : Unmoved e (e.pushGlobal entry))) entries

theorem deletes_unmoved (e : Engine) (handles : List Handle) : Unmoved e (handles.foldl deleteLive e) :=
  foldl_unmoved deleteLive_unmoved handles

theorem apply_onwards (e : Engine) (effects : Effects) : Onwards e (e.apply effects) :=
  ((pushes_unmoved e effects.pushes).onwards.trans (inserts_onwards _ effects.inserts)).trans
    (deletes_unmoved _ effects.deletes).onwards

-- Only what an action inserts moves the numbers on.
theorem applyIn_tracks (b : Build) (effects : Effects) (within : e.Within) :
    b.Tracks (e.apply effects).Within (e.apply effects) (e.applyIn b effects) := by
  have inserted := Build.Tracks.fold (motive := Within) (fun _ fact held => (insertIn_tracks b fact held).map Prod.snd)
    (fun e fact => (insert_onwards e fact).back) effects.inserts ((pushes_unmoved e effects.pushes).within within)
  exact inserted.bind (fun held => .pure ((deletes_unmoved _ effects.deletes).within held) _)
    (deletes_unmoved _ effects.deletes).onwards.back

theorem take_unmoved {taken : Option (Activation × Effects)} (took : e.take? = some (taken,next)) : Unmoved e next := by
  obtain ⟨_,went⟩ | ⟨_,_,_,_,⟨_,went⟩ | ⟨_,_,_,went⟩⟩ := take_head e
  · cases went.symm.trans took
  · cases went.symm.trans took
    exact ⟨rfl,rfl⟩
  · cases went.symm.trans took
    exact ⟨rfl,rfl⟩

theorem step_onwards {fired : Option Activation} (stepped : e.step = some (fired,next)) : Onwards e next := by
  unfold step at stepped
  split at stepped
  · cases stepped
  · next took =>
    cases stepped
    exact (take_unmoved took).onwards
  · next took =>
    cases stepped
    exact (take_unmoved took).onwards.trans (apply_onwards _ _)

theorem stepIn_tracks (b : Build) (within : e.Within) :
    b.Tracks (∀ fired next, e.step = some (fired,next) → next.Within) e.step (e.stepIn b) := by
  unfold step stepIn
  cases took : e.take? with
  | none => exact .pure (fun _ _ none => nomatch none) _
  | some result =>
    obtain ⟨taken,next⟩ := result
    have held := (take_unmoved took).within within
    cases taken with
    | none =>
      refine .pure (fun _ _ same => ?_) _
      cases same
      exact held
    | some asked =>
      have applied := (applyIn_tracks b asked.2 held).map fun last => some (some asked.1,last)
      refine applied.iff ⟨fun last fired next same => ?_,fun all => all _ _ rfl⟩
      cases same
      exact last

theorem fire_onwards (e : Engine) (limit : Nat) : Onwards e (e.fire limit).2 :=
  fire_induct (motive := Onwards e) (fun _ _ _ held stepped => held.trans (step_onwards stepped)) limit e
    ⟨Nat.le_refl _,Nat.le_refl _⟩

theorem fireIn_tracks (b : Build) (limit : Nat) (within : e.Within) :
    b.Tracks (e.fire limit).2.Within (e.fire limit) (e.fireIn b limit) := by
  induction limit generalizing e with
  | zero => exact .pure within _
  | succ limit ih =>
    unfold fireIn
    refine (stepIn_tracks b within).bind (fun held => ?_) fun last fired next stepped => ?_
    · unfold fire
      cases stepped : e.step with
      | none => exact .pure within _
      | some result =>
        obtain ⟨fired,next⟩ := result
        exact (ih (held fired next stepped)).bind (fun later => .pure later _) id
    · simp only [fire,stepped] at last
      exact (fire_onwards next limit).back last

end Firing

theorem replayIn_tracks (b : Build) (row : Handle × StoredFact) (fits : e.network.nextSequence < wordLimit) :
    b.Tracks ((e.replay row).network.nextSequence < wordLimit) (e.replay row) (e.replayIn b row) :=
  propagateIn_tracks (e := e.attach row.1 row.2.fact) b row.1 fits

theorem rebuildIn_tracks (b : Build) (program : Program) (stores : Stores) :
    b.Tracks (∀ e, rebuild program stores = .ok e → e.network.nextSequence < wordLimit) (rebuild program stores)
      (rebuildIn b program stores) := by
  unfold rebuild rebuildIn
  cases stores.roster with
  | error cause => exact .pure (fun _ none => nomatch none) _
  | ok roster =>
    have replayed := Build.Tracks.fold (motive := fun e : Engine => e.network.nextSequence < wordLimit)
      (fun _ row held => replayIn_tracks b row held)
      (fun e row held => Nat.lt_of_le_of_lt (propagate_sequence (e.attach row.1 row.2.fact) row.1) held)
      stores.facts.rows (s := ⟨program,Map.empty,roster,Network.empty,Map.empty,stores.globals⟩) (by decide : 0 < wordLimit)
    refine replayed.bind (fun held => .pure (fun _ same => ?_) _) fun all => all _ rfl
    cases same
    exact held

-- Engines as they stand between operations in a program with checks, and in one
-- without them as long as no number has run over.
inductive Reached (program : Program) : Engine → Prop
  | new : Reached program (new program)
  | rebuilt {stores : Stores} {e : Engine} (word : stores.nextHandle < wordLimit)
      (accepted : rebuildIn .checked program stores = some (.ok e)) : Reached program e
  | adopted {e next : Engine} (before : Reached program e)
      (accepted : adopt program e.stores e.network = .ok next) : Reached program next
  | inserted {e next : Engine} (before : Reached program e) {fact : Fact} {handle : Handle}
      (done : e.insertIn .checked fact = some (handle,next)) : Reached program next
  | updated {e next : Engine} (before : Reached program e) {handle : Handle} {fact : Fact}
      (done : e.updateIn .checked handle fact = some (.ok next)) : Reached program next
  | deleted {e next : Engine} (before : Reached program e) {handle : Handle} {fact : Fact}
      (done : e.delete handle = .ok (fact,next)) : Reached program next
  | fired {e next : Engine} (before : Reached program e) {limit : Nat} {run : List Activation}
      (done : e.fireIn .checked limit = some (run,next)) : Reached program next
  | cleared {e : Engine} (before : Reached program e) (name : String) : Reached program (e.clear name).2

theorem Reached.plain {program : Program} (reached : Reached program e) : Reachable program e ∧ e.Within := by
  induction reached with
  | new => exact ⟨.new,(by decide : 1 < wordLimit),(by decide : 0 < wordLimit)⟩
  | @rebuilt stores e word accepted =>
    obtain ⟨fits,same⟩ := (rebuildIn_tracks .checked program stores).went accepted
    have handle : e.roster.nextHandle = stores.nextHandle := congrArg Roster.nextHandle (rebuild_ok same).1.roster
    exact ⟨.rebuilt same,handle ▸ word,fits e same⟩
  | adopted _ accepted ih =>
    obtain ⟨before,within⟩ := ih
    have kept := before.kept
    refine ⟨before.adopted accepted,?_⟩
    obtain ⟨rfl,coherent,_⟩ := kept
    cases adopt_self coherent accepted
    exact within
  | @inserted e _ _ fact _ done ih =>
    obtain ⟨before,within⟩ := ih
    obtain ⟨fits,same⟩ := (insertIn_tracks .checked fact within).went done
    have after := before.inserted fact
    rw [same] at fits after
    exact ⟨after,fits⟩
  | updated _ done ih =>
    obtain ⟨before,within⟩ := ih
    obtain ⟨fits,same⟩ := (updateIn_tracks .checked _ _ within).went done
    exact ⟨before.updated same,(fits _ same).1⟩
  | deleted _ done ih =>
    obtain ⟨before,within⟩ := ih
    exact ⟨before.deleted done,(delete_unmoved done).within within⟩
  | @fired e _ _ limit _ done ih =>
    obtain ⟨before,within⟩ := ih
    obtain ⟨fits,same⟩ := (fireIn_tracks .checked limit within).went done
    have after := before.fired limit
    rw [same] at fits after
    exact ⟨after,fits⟩
  | cleared _ name ih => exact ⟨ih.1.cleared name,ih.2.handle,ih.2.sequence⟩

theorem Reached.insert {program : Program} (reached : Reached program e) (fact : Fact) (fits : (e.insert fact).2.Within) :
    Reached program (e.insert fact).2 :=
  reached.inserted ((insertIn_tracks .checked fact reached.plain.2).agrees fits)

theorem Reached.update {program : Program} (reached : Reached program e) (done : e.update handle fact = .ok next)
    (fits : next.Within) (version : ∀ version, e.roster.versions.get? handle = some version → version + 1 < wordLimit) :
    Reached program next := by
  refine reached.updated (done ▸ (updateIn_tracks .checked handle fact reached.plain.2).agrees fun other same => ?_)
  cases done.symm.trans same
  exact ⟨fits,version⟩

end Engine
end DurableRules
