import Mathlib.Data.List.Sort
import Btos.User.Package.MemberPath

/-!
# What a package can create

The loop of `ExtractFiles` over the sorted members.  It stops at the first member that is refused; what was
created before stays.  Which calls of the system succeed is a parameter.

* `extractLoop_contained` — **the loop creates nothing outside**, by induction over the members that are left;
* `extract_contained_iff` — **nothing is created outside exactly if no member that is reached lies beside the installation
  directory, or has no room**.
-/

namespace Btos.User.Package

open User.Newlib List
open Lib.Segments

/-! ### The loop -/

section

variable {p : InstallPath} {env : Env}

theorem extractLoop_inside (h : p.Inside c.path) (cs : List ContentFile) (created : List Entry)
    (hsucceeds : env.succeeds created.length = true) : extractLoop env p.path (c :: cs) created =
      extractLoop env p.path cs (created ++ [⟨p.finalPath c.path, c.type⟩]) := by
  obtain ⟨hfits, segs, hresolved, hprefix⟩ := h
  obtain ⟨hparse, hplain⟩ := p.parsePath_member c.path (env.outside created.length) env.cwd hfits
  have haccept : startsWith (p.finalPath c.path) p.path = true :=
    (p.startsWith_member_iff c.path hplain).mpr ⟨segs, hresolved, .inl hprefix⟩
  simp [extractLoop, hparse, haccept, hsucceeds]

theorem extractLoop_append (hall : ∀ n, env.succeeds n = true)
    (h : ∀ d ∈ done, p.Inside d.path) (rest : List ContentFile) (created : List Entry) :
    extractLoop env p.path (done ++ rest) created =
      extractLoop env p.path rest (created ++ done.map fun d => ⟨p.finalPath d.path, d.type⟩) := by
  induction done generalizing created with
  | nil => rw [nil_append, map_nil, append_nil]
  | cons d done ih =>
    rw [cons_append, extractLoop_inside (h d mem_cons_self) _ _ (hall _),
      ih (fun d hd => h d (mem_cons_of_mem _ hd)), append_assoc]
    rfl

theorem mem_extractLoop : ∀ {created : List Entry} {r : Extraction},
    extractLoop env p.path cs created = some r → ∀ e ∈ created, e ∈ r.created := by
  induction cs with
  | nil =>
    intro created r h e he
    cases h
    exact he
  | cons c cs ih =>
    intro created r h e he
    rw [extractLoop] at h
    split at h
    · cases h
    · split at h
      · cases h
        exact he
      · split at h
        · exact ih h e (mem_append_left _ he)
        · cases h
          exact he

/-- **The loop creates nothing outside**, if no member that it reaches lies beside or has no room. -/
theorem extractLoop_contained (hsorted : IsSorted content sorted)
    (hcond : ∀ c ∈ content, (∀ d ∈ content, d.path.length < c.path.length → p.Inside d.path) →
      p.Fits c.path ∧ ¬ p.Beside c.path) :
    ∀ {done : List ContentFile} {created : List Entry}, sorted = done ++ rest → (∀ d ∈ done, p.Inside d.path) →
      (∀ e ∈ created, Contained p.path e.path) →
      ∃ r, extractLoop env p.path rest created = some r ∧ ∀ e ∈ r.created, Contained p.path e.path := by
  induction rest with
  | nil =>
    intro done created _ _ hcreated
    exact ⟨_, rfl, hcreated⟩
  | cons c cs ih =>
    intro done created hsplit hdone hcreated
    obtain ⟨hperm, hpairwise⟩ := hsorted
    rw [hsplit, pairwise_append] at hpairwise
    -- all members that are shorter have been extracted
    have hshorter : ∀ d ∈ content, d.path.length < c.path.length → p.Inside d.path := by
      intro d hd hlt
      rw [← hperm.mem_iff, hsplit, mem_append, mem_cons] at hd
      rcases hd with hd | rfl | hd
      · exact hdone d hd
      · exact absurd hlt (Nat.lt_irrefl _)
      · exact absurd (rel_of_pairwise_cons hpairwise.2.1 hd) (Nat.not_le.mpr hlt)
    have hc : c ∈ content := by
      rw [← hperm.mem_iff, hsplit]
      exact mem_append_right _ mem_cons_self
    obtain ⟨hfits, hbeside⟩ := hcond c hc hshorter
    obtain ⟨hparse, hplain⟩ := p.parsePath_member c.path (env.outside created.length) env.cwd hfits
    simp only [extractLoop, hparse]
    by_cases haccept : startsWith (p.finalPath c.path) p.path = true
    · obtain ⟨segs, hresolved, hprefix⟩ := (p.startsWith_member_iff c.path hplain).mp haccept
      have hinside : p.segs <+: segs := hprefix.resolve_right fun h => hbeside ⟨segs, hresolved, h⟩
      have hcontained := p.contained_of_prefix c.path hresolved hinside
      simp only [haccept, Bool.not_true, Bool.false_eq_true, if_false]
      split
      · refine @ih (done ++ [c]) _ (by rw [hsplit, append_assoc]; rfl) ?_ ?_
        · intro d hd
          rcases mem_append.mp hd with hd | hd
          · exact hdone d hd
          · rw [mem_singleton.mp hd]
            exact ⟨hfits, segs, hresolved, hinside⟩
        · intro e he
          rcases mem_append.mp he with he | he
          · exact hcreated e he
          · rw [mem_singleton.mp he]
            exact hcontained
      · exact ⟨_, rfl, hcreated⟩
    · simp only [haccept, Bool.not_false, if_true]
      exact ⟨_, rfl, hcreated⟩

end

def Shorter (a b : ContentFile) : Prop := a.path.length ≤ b.path.length

instance : DecidableRel Shorter := fun a b => inferInstanceAs (Decidable (a.path.length ≤ b.path.length))

instance : Std.Total Shorter := ⟨fun a b => Nat.le_total a.path.length b.path.length⟩

instance : IsTrans ContentFile Shorter := ⟨fun _ _ _ => Nat.le_trans⟩

/-- **A member is reached** with no others before it than the shorter ones. -/
theorem exists_sorted (hc : c ∈ content) :
    ∃ done rest, IsSorted content (done ++ c :: rest) ∧ ∀ d ∈ done, d ∈ content ∧ d.path.length < c.path.length := by
  have hsort := insertionSort_cons_eq_take_drop Shorter c (content.erase c)
  have hperm := (perm_insertionSort Shorter (c :: content.erase c)).trans (perm_cons_erase hc).symm
  have hpairwise := pairwise_insertionSort Shorter (c :: content.erase c)
  refine ⟨_, _, ⟨hsort ▸ hperm, hsort ▸ hpairwise⟩, fun d hd => ⟨?_, ?_⟩⟩
  · rw [hsort] at hperm
    exact hperm.mem_iff.mp (mem_append_left _ hd)
  · have hnot := mem_takeWhile_imp hd
    rw [decide_eq_true_eq] at hnot
    exact Nat.not_le.mp hnot

/-- **Nothing is created outside exactly if no member that is reached lies beside the installation directory or has no
room.**  A member is reached if all shorter ones are inside. -/
theorem extract_contained_iff (p : InstallPath) (pkg : PackageFile) : ExtractsInside p.path pkg ↔
      ∀ c ∈ pkg.parseContent.content,
        (∀ d ∈ pkg.parseContent.content, d.path.length < c.path.length → p.Inside d.path) →
          p.Fits c.path ∧ ¬ p.Beside c.path := by
  constructor
  · intro hsafe c hc hshorter
    obtain ⟨done, rest, hsorted, hdone⟩ := exists_sorted hc
    -- everything succeeds, with the given memory around the arrays
    have hrun : ∀ o : Outside, ∃ r created, extractLoop ⟨[], fun _ => o, true, fun _ => true⟩ p.path (c :: rest) created =
        some r ∧ ∀ e ∈ r.created, Contained p.path e.path := by
      intro o
      obtain ⟨r, hr, hcontained⟩ := hsafe ⟨[], fun _ => o, true, fun _ => true⟩ _ hsorted
      rw [extractFiles, extractLoop_append (fun _ => rfl)
        (fun d hd => hshorter d (hdone d hd).1 (hdone d hd).2)] at hr
      exact ⟨r, _, hr, hcontained⟩
    have hfits : p.Fits c.path := by
      by_contra hno
      obtain ⟨o, ho⟩ := p.parsePath_member_none c.path hno
      obtain ⟨r, created, hr, -⟩ := hrun o
      simp only [extractLoop, ho] at hr
      cases hr
    refine ⟨hfits, ?_⟩
    rintro ⟨segs, hresolved, hextends⟩
    obtain ⟨r, created, hr, hcontained⟩ := hrun ⟨fun _ => nul, []⟩
    obtain ⟨hparse, hplain⟩ := p.parsePath_member c.path ⟨fun _ => nul, []⟩ [] hfits
    have haccept : startsWith (p.finalPath c.path) p.path = true :=
      (p.startsWith_member_iff c.path hplain).mpr ⟨segs, hresolved, .inr hextends⟩
    simp only [extractLoop, hparse, haccept, Bool.not_true, Bool.false_eq_true, if_false, if_true] at hr
    exact p.not_contained_of_extends c.path hresolved (hplain segs hresolved) hextends
      (hcontained _ (mem_extractLoop hr ⟨p.finalPath c.path, c.type⟩ (by simp)))
  · intro hcond env sorted hsorted
    rw [extractFiles]
    split
    · exact extractLoop_contained hsorted hcond rfl (fun d hd => absurd hd not_mem_nil)
        fun e he => absurd he not_mem_nil
    · split
      · refine extractLoop_contained hsorted hcond rfl (fun d hd => absurd hd not_mem_nil) fun e he => ?_
        rw [mem_singleton.mp he]
        exact .inl rfl
      · exact ⟨_, rfl, fun e he => absurd he not_mem_nil⟩

/-- `hdd:/app`. -/
def appPath : InstallPath where
  name := ['h', 'd', 'd']
  segs := [['a', 'p', 'p']]
  name_plain := by simp [IsSeparator, nul]
  segs_plain := by decide

/-- **A member beside the installation directory**: `content/../app2/x` in a package that is installed to `hdd:/app`. -/
theorem extract_escapes : ∃ pkg : PackageFile, pkg.members = [⟨"content/../app2/x".toList, false⟩] ∧
    appPath.path = "hdd:/app".toList ∧ (∃ env sorted, IsSorted pkg.parseContent.content sorted ∧
      extractFiles env appPath.path sorted = some ⟨true, [⟨"hdd:/app2/x".toList, .file⟩], []⟩) ∧
    ¬ ExtractsInside appPath.path pkg := by
  have hsorted : IsSorted (PackageFile.parseContent
      ⟨[⟨"content/../app2/x".toList, false⟩], "content/".toList, []⟩).content [⟨"../app2/x".toList, .file⟩] := by
    exact ⟨List.Perm.refl _, pairwise_singleton _ _⟩
  have hrun : extractFiles ⟨"hdd:/".toList, fun _ => ⟨fun _ => nul, []⟩, true, fun _ => true⟩ appPath.path
      [⟨"../app2/x".toList, .file⟩] = some ⟨true, [⟨"hdd:/app2/x".toList, .file⟩], []⟩ := by
    decide +kernel
  have houtside : ¬ Contained appPath.path "hdd:/app2/x".toList := by
    rw [Contained]
    decide +kernel
  refine ⟨⟨[⟨"content/../app2/x".toList, false⟩], "content/".toList, []⟩, rfl, by decide +kernel,
    ⟨_, _, hsorted, hrun⟩, fun hsafe => ?_⟩
  obtain ⟨r, hr, hcontained⟩ := hsafe _ _ hsorted
  cases hrun.symm.trans hr
  exact houtside (hcontained _ (mem_singleton_self _))

end Btos.User.Package
