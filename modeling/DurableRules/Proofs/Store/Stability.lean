import DurableRules.Proofs.Engine.Canonical
import DurableRules.Proofs.Store.Renewal

namespace DurableRules
open Recovery

section Regaining
variable {shelf : Shelf} {id : SessionId} {program : Program} {e : Engine} {options : Options} {version : Nat}
  {found : Recovered}

theorem stored_rebuilt (went : stored shelf id program .storesOnly = .ok found) :
    Engine.rebuild program found.engine.stores = .ok found.engine := by
  obtain ⟨facts,markers,globals,_,built⟩ := stored_ok.mp went
  have rebuilt : Engine.rebuild program (Snapshot.stores found.header facts markers globals) = .ok found.engine := built
  exact (Engine.Canonical.of_rebuild rebuilt).again

theorem Complete.regains (complete : Complete shelf id e options version) (kind : options.persistence = .storesOnly)
    (storable : Storable e version) (rebuilt : Engine.rebuild program e.stores = .ok e) :
    stored shelf id program .storesOnly = .ok ⟨e,Snapshot.header id e options version⟩ := by
  obtain ⟨holds,coherent,_,rfl⟩ := Engine.rebuild_ok rebuilt
  obtain ⟨roster,restored⟩ := Engine.rebuild_roster rebuilt
  obtain ⟨next,went,stores,_⟩ := complete.restores storable coherent.founded coherent.checked fun _ => holds.positive restored
  rw [kind] at went
  have again : Engine.rebuild e.program next.stores = .ok next := stored_rebuilt went
  rw [stores,rebuilt] at again
  cases again
  exact went

end Regaining

section Stable
variable {σ : Type} [Store σ] [Faithful σ] {store place : σ} {id : SessionId} {program : Program} {found : Recovered}
  {w durable : Writer} {version : Nat}

theorem recovered_stable (went : (recover id program .storesOnly store).1 = .ok found)
    (portable : found.engine.stores.Portable) (bounded : Bounded found.engine version) (own : w.id = id)
    (kind : w.options.persistence = .storesOnly) (written : (w.write found.engine version place).1 = .ok durable)
    (readable : Readable (w.write found.engine version place).2) :
    (recover id program .storesOnly (w.write found.engine version place).2).1 =
      .ok ⟨found.engine,Snapshot.header id found.engine w.options version⟩ := by
  subst own
  rw [readable.recovers]
  exact (write_complete written).regains kind ⟨bounded,portable⟩ (stored_rebuilt (recover_ok went))

-- Stores are refused for a handle that cannot have been handed out and for
-- nothing else. What they are rebuilt to is known in full, so that it is rebuilt
-- to itself, and so is what was recovered from the stores alone and written again.
theorem rebuild_canonical (program : Program) (stores : Stores) :
    ((∃ handle, Engine.rebuild program stores = .error (.unallocated ⟨handle,stores.nextHandle⟩)) ↔ stores.Stray) ∧
    (¬ stores.Stray → ∃ e, Engine.rebuild program stores = .ok e ∧ Engine.Canonical program stores e) ∧
    ∀ (store place : σ) (id : SessionId) (found : Recovered), (recover id program .storesOnly store).1 = .ok found →
      (∀ value ∈ found.engine.stores.values, value.Representable) → Legible found.engine.stores.values →
      ∀ (w : Writer) (version : Nat), w.id = id → w.options.persistence = .storesOnly → Bounded found.engine version →
        Steady place → (w.write found.engine version place).1 = .ok { w with durable := some version } ∧
          (recover id program .storesOnly (w.write found.engine version place).2).1 =
            .ok ⟨found.engine,Snapshot.header id found.engine w.options version⟩ := by
  refine ⟨?_,fun straight => ?_,fun store place id found went representable legible w version own kind bounded steady => ?_⟩
  · rcases Engine.rebuild_cases program stores with ⟨stray,refused⟩ | ⟨straight,e,rebuilt⟩
    · exact iff_of_true refused stray
    · refine iff_of_false ?_ straight
      rintro ⟨handle,refused⟩
      cases rebuilt.symm.trans refused
  · obtain ⟨e,rebuilt⟩ := ((Engine.rebuild_cases program stores).resolve_left fun refused => straight refused.1).2
    exact ⟨e,rebuilt,.of_rebuild rebuilt⟩
  · have portable := Stores.portable_iff.mpr ((portable_iff legible).mpr representable)
    obtain ⟨written,after⟩ := write_steady steady w found.engine version
    exact ⟨written,recovered_stable went portable bounded own kind written after.readable⟩

end Stable

section Restored
open Engine

-- Stores with the third handle live and the next one to be three are refused.
def narrowed : Stores := { restored.stores with nextHandle := 3 }

def regained : Memory := (shelving.write restored 1 Memory.empty).2

theorem restored_canonical :
    (∃ handle, rebuild pairing narrowed = .error (.unallocated ⟨handle,3⟩)) ∧
    Canonical pairing (paired.fire 1).2.stores restored ∧
    (recover .zero pairing .storesOnly (shelving.write restored 2 regained).2).1 =
      .ok ⟨restored,Snapshot.header .zero restored shelving.options 2⟩ := by
  have stray : narrowed.Stray := ⟨3,⟨0,item⟩,by decide,.inr (by decide)⟩
  have rebuilt : rebuild pairing (paired.fire 1).2.stores = .ok restored := rfl
  obtain ⟨refusing,_,_⟩ := @rebuild_canonical Memory _ _ pairing narrowed
  obtain ⟨refused,making,stable⟩ := @rebuild_canonical Memory _ _ pairing (paired.fire 1).2.stores
  have straight : ¬ (paired.fire 1).2.stores.Stray := fun held => by
    obtain ⟨handle,failed⟩ := refused.mpr held
    cases rebuilt.symm.trans failed
  obtain ⟨e,made,canonical⟩ := making straight
  cases rebuilt.symm.trans made
  obtain ⟨written,steady⟩ := write_steady (@Memory.steady Memory.empty rfl) shelving restored 1
  have went : (recover .zero pairing .storesOnly regained).1 =
      .ok ⟨restored,Snapshot.header .zero restored shelving.options 1⟩ :=
    (steady.readable.recovers ..).trans ((write_complete written).regains rfl (by decide) canonical.again)
  have plain : restored.stores.values = [] := by decide
  have again := stable regained regained .zero _ went (by simp [plain]) (by simp [plain,Legible]) shelving 2 rfl rfl
    (by decide) steady
  exact ⟨refusing.mpr stray,canonical,again.2⟩

end Restored
end DurableRules
