import Iceslab.Agent.AmneziawgRetry
import Iceslab.Agent.Hysteria
import Iceslab.Agent.Mieru
import Iceslab.Agent.SingboxAdapter

/-!
# A failed push, pushed again

What the adapters of the agent answer to a push that comes again: AmneziaWG, hysteria, sing-box and
mieru each compare it with what they stored.

* `retry_in_force` — where what is stored goes into force, "unchanged" means in force.
* `failed_restart_forgotten` — hysteria stores before it restarts: the same push again is answered
  nil over a unit that did not come back.
-/

set_option autoImplicit false

namespace Iceslab.Agent

/-- **A push answered nil is in force, and one refused for what it says leaves the adapter as it
was**, in every run of pushes whose steps after the store succeed. -/
theorem retry_in_force {κ : Type} (awg : Amneziawg.Install) (libs : Hysteria.Libs)
    (hysteria : Hysteria.Config) (singbox : Singbox.Install) (mieru : Mieru.Install) :
    (Amneziawg.Retry.pushed awg : Pushed _ (Amneziawg.Retry.Turn κ)).HonestWhen
        Amneziawg.Retry.Fits ∧
      (Hysteria.pushed libs hysteria).HonestWhen (fun _ t => Hysteria.Restarts hysteria t) ∧
      (Singbox.pushed singbox).HonestWhen (fun s t => Singbox.Started singbox s t.answers) ∧
      (Mieru.pushed mieru).HonestWhen (fun s t => Mieru.Taken mieru s t.answers) :=
  ⟨Amneziawg.Retry.honest, Hysteria.honest, Singbox.honest, Mieru.honest⟩

/-! ## Two pushes to hysteria -/

namespace Hysteria

def someConfig : Config where
  authCallbackHost := ""
  authCallbackPort := 0
  authCallbackPath := "/auth/9f3a"
  configPath := "/etc/hysteria/config.yaml"
  hostname := "node.example"
  acmeEmail := ""
  listenPort := 0
  serviceUnit := "hysteria-server"
  trafficStatsListen := ""
  trafficStatsSecret := ""

def noLibs : Libs where
  parseURL _ := none
  tlsPair _ _ := false

def plainWire : InboundCfgWire := ⟨"", "", "", 0, 0, "", ""⟩

/-- The plain inbound, where the unit does or does not come back up. -/
def plainTurn (restart : Bool) : Turn :=
  ⟨.applyInbound 443 (some plainWire), .done, .done, .done, restart⟩

def freshState : State := ⟨.zero, none, none, none, none, none⟩

theorem plainTurn_restarts : Restarts someConfig (plainTurn true) where
  path := by decide
  inbound port wire h := by
    cases h
    decide
  write := by decide
  restart _ _ := rfl

theorem plainWire_renders :
    ∃ doc, renderConfig noLibs someConfig (plainWire.toInboundConfig 443) none = .ok doc :=
  ⟨_, rfl⟩

/-- The plain inbound on a fresh adapter: written, stored, and the unit's answer. -/
theorem call_plainTurn (restart : Bool) :
    ∃ doc, freshState.call noLibs someConfig (plainTurn restart) =
      ({ freshState with
          inbound := plainWire.toInboundConfig 443
          config := some doc
          restarted := some (some doc, restart) },
        if restart then none else some .restart) := by
  obtain ⟨doc, hdoc⟩ := plainWire_renders
  refine ⟨doc, ?_⟩
  have hrewrite : rewriteLocked noLibs someConfig (plainTurn restart)
      (plainWire.toInboundConfig 443) none freshState =
        ({ freshState with config := some doc }, none) := by
    unfold rewriteLocked
    rw [hdoc]
    rfl
  have hne : freshState.inbound ≠ plainWire.toInboundConfig 443 := by decide
  show applyInbound noLibs someConfig (plainTurn restart) 443 (some plainWire) freshState = _
  unfold applyInbound
  dsimp only
  rw [if_neg hne, if_neg (show someConfig.configPath ≠ "" by decide)]
  rw [show freshState.chain = none from rfl, hrewrite]
  rfl

end Hysteria

theorem retry_in_force_twice :
    ∀ st ∈ Machine.trace (Hysteria.pushed Hysteria.noLibs Hysteria.someConfig).step
        Hysteria.freshState [Hysteria.plainTurn true, Hysteria.plainTurn true],
      (Hysteria.pushed Hysteria.noLibs Hysteria.someConfig).Honest st.1 st.2.1 :=
  (@retry_in_force Unit ⟨false, false, ⟨"awg0", 0, "", "", .zero, [], [], none, none⟩,
      by decide⟩ Hysteria.noLibs Hysteria.someConfig
      ⟨.tuic, true, "", "", "", "", false, fun _ => []⟩ ⟨true, true, ⟨0, 0, ""⟩⟩).2.1.foldl
    ⟨rfl, rfl⟩ _ (by
      intro st hst
      have : st.2.1 = Hysteria.plainTurn true := by
        simp only [Machine.trace, List.mem_cons, List.not_mem_nil, or_false] at hst
        rcases hst with rfl | rfl <;> rfl
      rw [this]
      exact Hysteria.plainTurn_restarts)

/-- **A restart that fails is forgotten**: the same push again is answered nil, and the unit is not
up with the config it was answered for. -/
theorem failed_restart_forgotten :
    ¬ (Hysteria.pushed Hysteria.noLibs Hysteria.someConfig).HonestWhen (fun _ _ => True) := by
  intro h
  obtain ⟨doc, hfirst⟩ := Hysteria.call_plainTurn false
  have hhonest := h.foldl (⟨rfl, rfl⟩ : (Hysteria.pushed Hysteria.noLibs
      Hysteria.someConfig).start Hysteria.freshState)
    [Hysteria.plainTurn false, Hysteria.plainTurn false] (fun _ _ => trivial) (_, _, _)
    (List.mem_cons_of_mem _ List.mem_cons_self)
  have hstep : (Hysteria.pushed Hysteria.noLibs Hysteria.someConfig).step Hysteria.freshState
      (Hysteria.plainTurn false) = { Hysteria.freshState with
        inbound := Hysteria.plainWire.toInboundConfig 443
        config := some doc
        restarted := some (some doc, false) } := by
    show (Hysteria.freshState.call _ _ _).1 = _
    rw [hfirst]
  rw [hstep] at hhonest
  obtain ⟨-, hforce⟩ := hhonest.accepted rfl
  have hup := hforce.restarted (by decide)
  cases hup

end Iceslab.Agent
