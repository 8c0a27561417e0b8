import Iceslab.LegStability

/-!
# The congestion controller a tuic leg runs

`reuseLinkCred` of `cascade.config.ts`: a kept leg takes the knob of the request where the request
names one.  Where it names none, the stored controller stays.

* `knobDrawn` — the controller a tuic leg is drawn with, from the request and the stored leg.
* `KnobsFollow` — each tuic leg runs what its direction or its position asks for, or the default.
* `knobs_follow_iff` — they do exactly where no leg without a knob is stored under another one.
-/

set_option autoImplicit false

namespace Iceslab

open Checked

section Drawn

variable (mint : Minting) (existing : String → Option LinkCred)

def PlannedLeg.key (p : PlannedLeg) : String :=
  topologyLinkKey p.fromNodeId p.toNodeId p.directionTag

/-- The controller a tuic leg is drawn with. -/
def knobDrawn (p : PlannedLeg) : LinkCongestion :=
  p.congestion.getD (match existing p.key with
    | some (.tuic c) => if c.port = p.port then c.congestion else DEFAULT_LINK_CONGESTION
    | _ => DEFAULT_LINK_CONGESTION)

theorem baseCred_tuic {p : PlannedLeg} (hp : p.protocol = .tuic) (i : Nat) :
    ∃ c, baseCred mint existing p i = .tuic c ∧ c.congestion = knobDrawn existing p := by
  have hminted (hkept : keptFor existing p = none)
      (hknob : knobDrawn existing p = p.congestion.getD DEFAULT_LINK_CONGESTION) :
      ∃ c, baseCred mint existing p i = .tuic c ∧ c.congestion = knobDrawn existing p := by
    rw [baseCred, hkept, Option.getD_none, hp, hknob]
    exact ⟨_, rfl, rfl⟩
  have hread : keptFor existing p = reuseLinkCred (existing p.key) .tuic p.port p.congestion := by
    rw [keptFor, hp, PlannedLeg.key]
  cases hs : existing p.key with
  | none => exact hminted (by rw [hread, hs]; rfl) (by simp [knobDrawn, hs])
  | some stored =>
    cases stored with
    | tuic c =>
      obtain ⟨port, uuid, password, congestion, tls⟩ := c
      by_cases hport : port = p.port
      · -- the stored leg fits, so the request's knob is laid over it
        have hkept : keptFor existing p
            = some (.tuic ⟨port, uuid, password, knobDrawn existing p, tls⟩) := by
          rw [hread, hs]
          cases hk : p.congestion with
          | none => simp [reuseLinkCred, LinkCred.protocol, LinkCred.port, knobDrawn, hport, hk, hs]
          | some k =>
            by_cases hck : congestion = k <;>
              simp [reuseLinkCred, LinkCred.protocol, LinkCred.port, knobDrawn, hport, hk, hck]
        exact ⟨_, by rw [baseCred, hkept, Option.getD_some], rfl⟩
      · refine hminted ?_ (by simp [knobDrawn, hs, hport])
        rw [hread, hs]
        simp [reuseLinkCred, LinkCred.protocol, LinkCred.port, hport]
    | _ c =>
      refine hminted ?_ (by simp [knobDrawn, hs])
      rw [hread, hs]
      simp [reuseLinkCred, LinkCred.protocol]

end Drawn

/-! ## What the request asks for -/

/-- The link is the one drawn for the planned leg. -/
def SameLeg (p : PlannedLeg) (l : TopologyLink) : Prop :=
  p.fromNodeId = l.fromNodeId ∧ p.toNodeId = l.toNodeId ∧ p.directionTag = l.directionTag

/-- Each tuic leg runs the knob of its direction, on a last leg, or of its position, or the
default. -/
def KnobsFollow (T : SavedTopology) (links : List TopologyLink) : Prop :=
  ∀ l ∈ links, ∀ c, l.cred = .tuic c → ∀ p, Planned T.directions 0 T.positions p → SameLeg p l →
    c.congestion = p.congestion.getD DEFAULT_LINK_CONGESTION

/-- No tuic leg without a knob is stored, on the port it has now, with another controller than the
default. -/
def KnobsFit (T : SavedTopology) (existing : String → Option LinkCred) : Prop :=
  ∀ p, Planned T.directions 0 T.positions p → p.protocol = .tuic → p.congestion = none →
    ∀ c, existing p.key = some (.tuic c) → c.port = p.port →
      c.congestion = DEFAULT_LINK_CONGESTION

theorem knobsFit_iff {T : SavedTopology} {existing : String → Option LinkCred} :
    KnobsFit T existing ↔ ∀ p, Planned T.directions 0 T.positions p → p.protocol = .tuic →
      knobDrawn existing p = p.congestion.getD DEFAULT_LINK_CONGESTION := by
  constructor
  · intro hfit p hp hcell
    cases hk : p.congestion with
    | some k => simp [knobDrawn, hk]
    | none =>
      simp only [knobDrawn, hk, Option.getD_none]
      split
      · rename_i c hs
        split
        · rename_i hport
          exact hfit p hp hcell hk c hs hport
        · rfl
      · rfl
  · intro hdrawn p hp hcell hk c hs hport
    have h := hdrawn p hp hcell
    simpa [knobDrawn, hk, hs, hport] using h

section Save

variable {T : SavedTopology} {mint : Minting} {existing : String → Option LinkCred}
  {links : List TopologyLink}

/-- The links of a save, each beside the leg it was drawn for. -/
theorem link_of_planned
    (h : generateTopologyLinks mint existing T.positions T.directions = .ok links)
    {p : PlannedLeg} (hp : Planned T.directions 0 T.positions p) (hcell : p.protocol = .tuic) :
    ∃ l ∈ links, SameLeg p l ∧ ∃ c, l.cred = .tuic c ∧ c.congestion = knobDrawn existing p := by
  obtain ⟨plan, i, -, hlink⟩ := link_of_leg h hp
  refine ⟨_, hlink, ⟨rfl, rfl, rfl⟩, ?_⟩
  obtain ⟨c, hc, hknob⟩ := baseCred_tuic mint existing hcell i
  exact ⟨c, by rw [linkOf, legCred_of_not_vless mint existing (by simp [hcell]), hc], hknob⟩

theorem planned_of_link
    (h : generateTopologyLinks mint existing T.positions T.directions = .ok links)
    {l : TopologyLink} (hl : l ∈ links) {c : TuicLinkCred} (hc : l.cred = .tuic c) :
    ∃ p, Planned T.directions 0 T.positions p ∧ SameLeg p l ∧ p.protocol = .tuic
      ∧ c.congestion = knobDrawn existing p := by
  obtain ⟨plan, p, i, hp, hmem, rfl⟩ := leg_of_link h hl
  have hcell : p.protocol = .tuic := by
    have hprot := legCred_protocol mint existing hmem i
    rw [← hprot]
    exact congrArg LinkCred.protocol hc
  refine ⟨p, hp, ⟨rfl, rfl, rfl⟩, hcell, ?_⟩
  obtain ⟨c', hc', hknob⟩ := baseCred_tuic mint existing hcell i
  simp only [linkOf, legCred_of_not_vless mint existing (show p.protocol ≠ .vless by simp [hcell]),
    hc'] at hc
  obtain rfl := LinkCred.tuic.inj hc
  exact hknob

/-- **A knob follows the request exactly where no stored one outlives it.**  And two saves of one
topology, from stored legs that leave no such knob, agree on the controller of every tuic leg. -/
theorem knobs_follow_iff
    (h : generateTopologyLinks mint existing T.positions T.directions = .ok links) :
    (KnobsFollow T links ↔ KnobsFit T existing)
      ∧ ∀ mint' existing' links',
        generateTopologyLinks mint' existing' T.positions T.directions = .ok links' →
        KnobsFit T existing → KnobsFit T existing' →
        ∀ p, Planned T.directions 0 T.positions p →
        ∀ l ∈ links, SameLeg p l → ∀ l' ∈ links', SameLeg p l' →
        ∀ c c', l.cred = .tuic c → l'.cred = .tuic c' → c.congestion = c'.congestion := by
  have hfollow : ∀ {mint existing links},
      generateTopologyLinks mint existing T.positions T.directions = .ok links →
      KnobsFit T existing → KnobsFollow T links := by
    intro mint existing links h hfit l hl c hc p hp hsame
    obtain ⟨q, hq, hsame', hcell, hknob⟩ := planned_of_link h hl hc
    obtain rfl := T.leg_unique hp hq (hsame.1.trans hsame'.1.symm)
      (hsame.2.1.trans hsame'.2.1.symm) (hsame.2.2.trans hsame'.2.2.symm)
    rw [hknob]
    exact knobsFit_iff.mp hfit p hp hcell
  refine ⟨⟨fun hknobs => knobsFit_iff.mpr fun p hp hcell => ?_, hfollow h⟩, ?_⟩
  · obtain ⟨l, hl, hsame, c, hc, hknob⟩ := link_of_planned h hp hcell
    rw [← hknob]
    exact hknobs l hl c hc p hp hsame
  · intro mint' existing' links' h' hfit hfit' p hp l hl hsame l' hl' hsame' c c' hc hc'
    rw [hfollow h hfit l hl c hc p hp hsame, hfollow h' hfit' l' hl' c' hc' p hp hsame']

end Save

/-! ## A cleared knob -/

/-- One entry, one direction over tuic, no knob asked for. -/
def tuicPath : SavedTopology where
  sent := [{ nodeIds := [nodeA], position := 0, entryProtocol := some "xray",
             linkProtocol := some "tuic" }]
  directions := [⟨1, { nodeIds := [nodeB] }⟩]
  validated :=
    { positions := [{ nodeIds := [nodeA], position := 0, entryProtocol := some "xray",
                      linkProtocol := some "tuic" }]
      directions := [{ nodeIds := [nodeB] }]
      linkCount := 1 }
  accepted := by decide
  tags := vlessPath.tags
  tags_range := vlessPath.tags_range
  uuids := by decide

/-- The leg as it was stored while its knob was `cubic`. -/
def cubicStored (key : String) : Option LinkCred :=
  if key = topologyLinkKey nodeA nodeB 1 then
    some (.tuic { port := 24000, uuid := "uuid-1", password := "pass-1", congestion := .cubic,
                  tls := sampleTls })
  else none

theorem knobs_follow_iff_tuicPath :
    ∃ links, generateTopologyLinks (sampleMinting "1") (fun _ => none) tuicPath.positions
        tuicPath.directions = .ok links ∧ KnobsFollow tuicPath links :=
  ⟨_, rfl, (@knobs_follow_iff tuicPath (sampleMinting "1") (fun _ => none) _ rfl).1.mpr
    fun _ _ _ _ _ hs => by cases hs⟩

/-- The knob is cleared and the leg stays on `cubic`: a first save of the same topology would
draw `bbr`. -/
theorem cleared_knob_stays :
    ∃ links c, generateTopologyLinks (sampleMinting "2") cubicStored tuicPath.positions
        tuicPath.directions = .ok links
      ∧ links.map (·.cred) = [.tuic c] ∧ c.congestion = .cubic ∧ ¬ KnobsFollow tuicPath links := by
  refine ⟨_, _, rfl, rfl, rfl, fun hfollow => ?_⟩
  have hplan : planLegs tuicPath.directions 0 tuicPath.positions
      = .ok [⟨nodeA, nodeB, 1, .tuic, 0, none⟩] := rfl
  have hp := (mem_plan_iff hplan _).mp List.mem_cons_self
  have h := hfollow _ List.mem_cons_self _ rfl _ hp ⟨rfl, rfl, rfl⟩
  cases h

end Iceslab
