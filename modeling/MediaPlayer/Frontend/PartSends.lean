import MediaPlayer.Frontend.PartSenders
import Mathlib.Data.List.Nodup

/-!
# Every part is sent once

* `Consistent` — the parts below the cursor are each at one loop, or kept with the one answer
  that carried their ETag, or lost to a loop that failed; nothing was sent of any other.
* `Consistent.same` — a loop that stays at its part changes what is known of that part only.
-/

namespace MediaPlayer
namespace Frontend

open Library

/-- The part a loop is at. -/
def SendPhase.number : SendPhase → Option ℕ
  | .signing number | .putting number _ _ | .refused number _ _ | .pausing number _ _
  | .answered number _ | .tagged number _ => some number
  | .looping | .finished | .failed _ => none

namespace SendState

/-- The answers that took a part. -/
def succeeded (s : SendState) (number : ℕ) : List PutResponse :=
  (s.answers.filter fun answer => answer.1 = number ∧ answer.2.ok).map Prod.snd

/-- What storage has said of the part a loop is at. -/
def Said (s : SendState) : SendPhase → Prop
  | .signing number | .putting number _ _ | .refused number _ _ | .pausing number _ _ =>
      s.succeeded number = []
  | .answered number response => s.succeeded number = if response.ok then [response] else []
  | .tagged number etag =>
      ∃ response, s.succeeded number = [response] ∧ response.etag = some etag
  | .looping | .finished | .failed _ => True

/-- A part that was sent once, its ETag in its place. -/
def Kept (s : SendState) (number : ℕ) : Prop :=
  ∃ response etag, s.succeeded number = [response] ∧ response.etag = some etag ∧
    s.etags (number - 1) = some etag

variable {transfer : Transfer} {s t : SendState} {i : ℕ}

theorem succeeded_append {number : ℕ} {response : PutResponse}
    (hanswers : t.answers = s.answers ++ [(number, response)]) (other : ℕ) :
    t.succeeded other =
      s.succeeded other ++ if number = other ∧ response.ok then [response] else [] := by
  unfold succeeded
  rw [hanswers, List.filter_append, List.map_append]
  congr 1
  by_cases htaken : number = other ∧ response.ok = true
  · rw [if_pos htaken]
    simp [htaken.1, htaken.2]
  · rw [if_neg htaken]
    simpa using htaken

theorem Said.congr {phase : SendPhase} (hsaid : s.Said phase)
    (hsame : ∀ number, phase.number = some number → t.succeeded number = s.succeeded number) :
    t.Said phase := by
  cases phase with
  | signing number | putting number attempt url | refused number attempt url
  | pausing number attempt url | answered number response | tagged number etag =>
      simp only [Said]
      rw [hsame number rfl]
      exact hsaid
  | looping | finished | failed error => trivial

/-- Where the parts are. -/
structure Consistent (transfer : Transfer) (s : SendState) : Prop where
  taken : ∀ i number, (s.phase i).number = some number → number ∈ transfer.todo.take s.next
  apart : ∀ i j number, (s.phase i).number = some number →
    (s.phase j).number = some number → i = j
  puts : ∀ put ∈ s.puts, put.number ∈ transfer.todo.take s.next
  answers : ∀ answer ∈ s.answers, answer.1 ∈ transfer.todo.take s.next
  said : ∀ i, s.Said (s.phase i)
  kept : ∀ number ∈ transfer.todo.take s.next, (∃ i, (s.phase i).number = some number) ∨
    (∃ i error, s.phase i = .failed error) ∨ s.Kept number
  held : ∀ index < transfer.partCount, ∀ etag, transfer.held (index + 1) = some etag →
    s.etags index = some etag
  drained : ∀ i < transfer.sends, s.phase i = .finished → transfer.todo.length ≤ s.next
  idle : ∀ i, transfer.sends ≤ i → s.phase i = .finished
  settled : ∀ parts, s.settled = some (.ok parts) →
    (∀ i < transfer.sends, s.phase i = .finished) ∧ parts = s.manifest transfer

theorem mem_todo {number : ℕ} : number ∈ transfer.todo ↔
    1 ≤ number ∧ number ≤ transfer.partCount ∧ transfer.held number = none := by
  unfold Transfer.todo
  rw [List.mem_filter, List.mem_range'_1, Option.isNone_iff_eq_none, and_assoc]
  refine and_congr_right fun _ => and_congr_left fun _ => ?_
  omega

theorem todo_nodup (transfer : Transfer) : transfer.todo.Nodup :=
  (List.nodup_range' : (List.range' 1 transfer.partCount).Nodup).filter _

namespace Consistent

/-- Once `sendParts` has resolved, no loop is left to move. -/
theorem unsettled (hs : s.Consistent transfer) (hphase : s.phase i ≠ .finished)
    (parts : List ManifestPart) : s.settled ≠ some (.ok parts) := by
  intro hsettled
  by_cases hi : i < transfer.sends
  · exact hphase ((hs.settled parts hsettled).1 i hi)
  · exact hphase (hs.idle i (Nat.le_of_not_lt hi))

/-- The part of one loop is not another's. -/
theorem number_ne (hs : s.Consistent transfer) {j number other : ℕ}
    (hnumber : (s.phase i).number = some number) (hj : j ≠ i)
    (hother : (s.phase j).number = some other) : other ≠ number := by
  rintro rfl
  exact hj (hs.apart j i other hother hnumber)

/-- What one loop has to see to when it moves, the others standing still. -/
theorem moved (hs : s.Consistent transfer) {phase : SendPhase}
    (hphase : t.phase = Function.update s.phase i phase)
    (hmoving : s.phase i ≠ .finished ∧ ∀ error, s.phase i ≠ .failed error)
    (hnext : s.next ≤ t.next) (hsettled : t.settled = s.settled)
    (htaken : ∀ number, phase.number = some number →
      number ∈ transfer.todo.take t.next ∧ ∀ j, j ≠ i → (s.phase j).number ≠ some number)
    (hputs : ∀ put ∈ t.puts, put.number ∈ transfer.todo.take t.next)
    (hanswers : ∀ answer ∈ t.answers, answer.1 ∈ transfer.todo.take t.next)
    (hsaid : t.Said phase)
    (hothers : ∀ j number, j ≠ i → (s.phase j).number = some number →
      t.succeeded number = s.succeeded number)
    (hkept : ∀ number ∈ transfer.todo.take t.next, phase.number = some number ∨
      (∃ error, phase = .failed error) ∨ t.Kept number ∨
      (number ∈ transfer.todo.take s.next ∧ (s.phase i).number ≠ some number ∧
        (s.Kept number → t.Kept number)))
    (hheld : ∀ index < transfer.partCount, ∀ etag, transfer.held (index + 1) = some etag →
      t.etags index = some etag)
    (hover : phase = .finished → transfer.todo.length ≤ t.next) : t.Consistent transfer := by
  have hself : t.phase i = phase := by rw [hphase, Function.update_self]
  have hother : ∀ j, j ≠ i → t.phase j = s.phase j := fun j hj => by
    rw [hphase, Function.update_of_ne hj]
  have hgrow : transfer.todo.take s.next ⊆ transfer.todo.take t.next :=
    (List.take_subset_take_left transfer.todo hnext)
  exact {
    taken := fun j number hj => by
      by_cases hji : j = i
      · rw [hji, hself] at hj
        exact (htaken number hj).1
      · rw [hother j hji] at hj
        exact hgrow (hs.taken j number hj)
    apart := fun j k number hj hk => by
      by_cases hji : j = i
      · by_cases hki : k = i
        · rw [hji, hki]
        · rw [hji, hself] at hj
          rw [hother k hki] at hk
          exact absurd hk ((htaken number hj).2 k hki)
      · rw [hother j hji] at hj
        by_cases hki : k = i
        · rw [hki, hself] at hk
          exact absurd hj ((htaken number hk).2 j hji)
        · rw [hother k hki] at hk
          exact hs.apart j k number hj hk
    puts := hputs
    answers := hanswers
    said := fun j => by
      by_cases hji : j = i
      · rwa [hji, hself]
      · rw [hother j hji]
        exact (hs.said j).congr fun number hnumber => hothers j number hji hnumber
    kept := fun number hnumber => by
      obtain hat | ⟨error, hfailed⟩ | hdone | ⟨hold, hleft, hstays⟩ := hkept number hnumber
      · exact .inl ⟨i, by rw [hself, hat]⟩
      · exact .inr (.inl ⟨i, error, by rw [hself, hfailed]⟩)
      · exact .inr (.inr hdone)
      · obtain ⟨j, hj⟩ | ⟨j, error, hj⟩ | hdone := hs.kept number hold
        · have hji : j ≠ i := by
            rintro rfl
            exact hleft hj
          exact .inl ⟨j, by rw [hother j hji, hj]⟩
        · have hji : j ≠ i := by
            rintro rfl
            exact hmoving.2 error hj
          exact .inr (.inl ⟨j, error, by rw [hother j hji, hj]⟩)
        · exact .inr (.inr (hstays hdone))
    held := hheld
    drained := fun j hj hfinished => by
      by_cases hji : j = i
      · rw [hji, hself] at hfinished
        exact hover hfinished
      · rw [hother j hji] at hfinished
        exact Nat.le_trans (hs.drained j hj hfinished) hnext
    idle := fun j hj => by
      have hji : j ≠ i := by
        rintro rfl
        exact hmoving.1 (hs.idle j hj)
      rw [hother j hji]
      exact hs.idle j hj
    settled := fun parts hparts =>
      absurd (hsettled.symm.trans hparts) (hs.unsettled hmoving.1 parts) }

theorem moving_of_number {phase : SendPhase} {number : ℕ} (hnumber : phase.number = some number) :
    phase ≠ .finished ∧ ∀ error, phase ≠ .failed error := by
  constructor
  · rintro rfl
    exact absurd hnumber nofun
  · rintro error rfl
    exact absurd hnumber nofun

/-- A loop that stays at its part: all it changes is what is known of that part. -/
theorem same (hs : s.Consistent transfer) {phase : SendPhase} {number : ℕ}
    (hphase : t.phase = Function.update s.phase i phase) (hnext : t.next = s.next)
    (hetags : t.etags = s.etags) (hsettled : t.settled = s.settled)
    (hbefore : (s.phase i).number = some number) (hafter : phase.number = some number)
    (hputs : ∀ put ∈ t.puts, put ∈ s.puts ∨ put.number = number)
    (hanswers : ∀ answer ∈ t.answers, answer ∈ s.answers ∨ answer.1 = number)
    (hothers : ∀ other ≠ number, t.succeeded other = s.succeeded other)
    (hsaid : t.Said phase) : t.Consistent transfer := by
  have hmem := hs.taken i number hbefore
  refine hs.moved hphase (moving_of_number hbefore) (Nat.le_of_eq hnext.symm) hsettled
    ?_ ?_ ?_ hsaid ?_ ?_ ?_ ?_
  · intro other hother
    obtain rfl : number = other := Option.some.inj (hafter.symm.trans hother)
    rw [hnext]
    exact ⟨hmem, fun j hj hnumber => hs.number_ne hbefore hj hnumber rfl⟩
  · intro put hput
    rw [hnext]
    obtain hold | rfl := hputs put hput
    · exact hs.puts put hold
    · exact hmem
  · intro answer hanswer
    rw [hnext]
    obtain hold | rfl := hanswers answer hanswer
    · exact hs.answers answer hold
    · exact hmem
  · intro j other hj hnumber
    exact hothers other (hs.number_ne hbefore hj hnumber)
  · intro other hother
    by_cases heq : other = number
    · rw [heq]
      exact .inl hafter
    · rw [hnext] at hother
      have hleft : (s.phase i).number ≠ some other := by
        rw [hbefore]
        exact fun hsome => heq (Option.some.inj hsome).symm
      refine .inr (.inr (.inr ⟨hother, hleft, ?_⟩))
      rintro ⟨response, etag, hone, hetag, hplace⟩
      exact ⟨response, etag, by rw [hothers other heq, hone], hetag, by rw [hetags, hplace]⟩
  · rw [hetags]
    exact hs.held
  · rintro rfl
    exact absurd hafter nofun

/-- A loop that gives up. -/
theorem fail (hs : s.Consistent transfer)
    (hmoving : s.phase i ≠ .finished ∧ ∀ error, s.phase i ≠ .failed error) (error : SendError) :
    (s.move i (.failed error)).Consistent transfer :=
  hs.moved rfl hmoving (Nat.le_refl _) rfl nofun hs.puts hs.answers trivial (fun _ _ _ _ => rfl)
    (fun _ _ => .inr (.inl ⟨error, rfl⟩)) hs.held nofun

/-- The parts below the cursor do not hold the one it is at. -/
theorem not_taken {number : ℕ} (hnext : transfer.todo[s.next]? = some number) :
    number ∉ transfer.todo.take s.next := by
  intro hmem
  obtain ⟨hlt, rfl⟩ := List.getElem?_eq_some_iff.mp hnext
  obtain ⟨k, hk, hkeq⟩ := List.mem_take_iff_getElem.mp hmem
  have hindex := (List.Nodup.getElem_inj_iff (todo_nodup transfer)).mp hkeq
  omega

theorem take_succ {number : ℕ} (hnext : transfer.todo[s.next]? = some number) :
    transfer.todo.take (s.next + 1) = transfer.todo.take s.next ++ [number] := by
  rw [List.take_add_one, hnext]
  rfl

/-- A loop that takes the next part, of which nothing has been said yet. -/
theorem take (hs : s.Consistent transfer) (hphase : s.phase i = .looping) {number : ℕ}
    (hnext : transfer.todo[s.next]? = some number) :
    ({ s.move i (.signing number) with
      next := s.next + 1, signs := s.signs ++ [number] } : SendState).Consistent transfer := by
  have hmoving : s.phase i ≠ .finished ∧ ∀ error, s.phase i ≠ .failed error := by
    rw [hphase]
    exact ⟨nofun, nofun⟩
  have hfresh := not_taken hnext
  have htake := take_succ hnext
  have hgrow : transfer.todo.take s.next ⊆ transfer.todo.take (s.next + 1) :=
    List.take_subset_take_left transfer.todo (Nat.le_succ _)
  refine hs.moved rfl hmoving (Nat.le_succ _) rfl ?_ (fun put hput => hgrow (hs.puts put hput))
    (fun answer hanswer => hgrow (hs.answers answer hanswer)) ?_ (fun _ _ _ _ => rfl) ?_ hs.held
    nofun
  · intro other hother
    obtain rfl := Option.some.inj hother
    refine ⟨?_, fun j _ hj => hfresh (hs.taken j number hj)⟩
    show number ∈ transfer.todo.take (s.next + 1)
    rw [htake]
    exact List.mem_append_right _ List.mem_cons_self
  · show s.succeeded number = []
    unfold succeeded
    rw [List.map_eq_nil_iff, List.filter_eq_nil_iff]
    intro answer hanswer htaken
    have hsame : answer.1 = number := (of_decide_eq_true htaken).1
    exact hfresh (hsame ▸ hs.answers answer hanswer)
  · intro other hother
    replace hother : other ∈ transfer.todo.take (s.next + 1) := hother
    rw [htake, List.mem_append, List.mem_singleton] at hother
    obtain hold | rfl := hother
    · refine .inr (.inr (.inr ⟨hold, ?_, id⟩))
      rw [hphase]
      nofun
    · exact .inl rfl

/-- The head of a loop. -/
theorem loop (hs : s.Consistent transfer) (hphase : s.phase i = .looping) :
    (s.loop transfer i).Consistent transfer := by
  have hmoving : s.phase i ≠ .finished ∧ ∀ error, s.phase i ≠ .failed error := by
    rw [hphase]
    exact ⟨nofun, nofun⟩
  unfold SendState.loop
  cases hnext : transfer.todo[s.next]? with
  | none =>
      refine hs.moved rfl hmoving (Nat.le_refl _) rfl nofun hs.puts hs.answers trivial
        (fun _ _ _ _ => rfl) ?_ hs.held fun _ => List.getElem?_eq_none_iff.mp hnext
      intro number hnumber
      refine .inr (.inr (.inr ⟨hnumber, ?_, id⟩))
      rw [hphase]
      nofun
  | some number =>
      simp only
      split
      · exact hs.fail hmoving _
      · exact hs.take hphase hnext

/-- A loop that writes down the ETag of its part. -/
theorem store (hs : s.Consistent transfer) {number : ℕ} {etag : String}
    (hphase : s.phase i = .tagged number etag) :
    ({ s.move i .looping with
      etags := Function.update s.etags (number - 1) (some etag) } : SendState).Consistent
        transfer := by
  have hbefore : (s.phase i).number = some number := by
    rw [hphase]
    rfl
  have hmem := hs.taken i number hbefore
  have hmissing : ∀ other ∈ transfer.todo.take s.next, 1 ≤ other ∧ transfer.held other = none :=
    fun other hother =>
      have htodo := mem_todo.mp (List.mem_of_mem_take hother)
      ⟨htodo.1, htodo.2.2⟩
  have hplace : Function.update s.etags (number - 1) (some etag) (number - 1) = some etag :=
    Function.update_self _ _ _
  refine hs.moved rfl (moving_of_number hbefore) (Nat.le_refl _) rfl nofun hs.puts hs.answers trivial
    (fun _ _ _ _ => rfl) ?_ ?_ nofun
  · intro other hother
    have hsaid := hs.said i
    rw [hphase] at hsaid
    obtain ⟨response, hone, hetag⟩ := hsaid
    by_cases heq : other = number
    · subst heq
      exact .inr (.inr (.inl ⟨response, etag, hone, hetag, hplace⟩))
    · refine .inr (.inr (.inr ⟨hother, ?_, ?_⟩))
      · rw [hbefore]
        exact fun hsome => heq (Option.some.inj hsome).symm
      · rintro ⟨response, etag, hone, hetag, hkept⟩
        refine ⟨response, etag, hone, hetag, ?_⟩
        have hne : other - 1 ≠ number - 1 := by
          have hone := (hmissing other hother).1
          have hone' := (hmissing number hmem).1
          omega
        exact (Function.update_of_ne hne _ _).trans hkept
  · intro index hindex already hheld
    have hne : index ≠ number - 1 := by
      rintro rfl
      obtain ⟨hone, hnone⟩ := hmissing number hmem
      rw [Nat.sub_add_cancel hone, hnone] at hheld
      exact absurd hheld nofun
    exact (Function.update_of_ne hne _ _).trans (hs.held index hindex already hheld)

/-- A PUT that begins, or would begin if the signal were not aborted. -/
theorem startPut (hs : s.Consistent transfer) {number : ℕ}
    (hbefore : (s.phase i).number = some number) (hnothing : s.succeeded number = [])
    (attempt : ℕ) (url : String) :
    (s.startPut transfer i number attempt url).Consistent transfer := by
  unfold SendState.startPut
  split
  · exact hs.same rfl rfl rfl rfl hbefore rfl (fun _ hput => .inl hput)
      (fun _ hanswer => .inl hanswer) (fun _ _ => rfl) hnothing
  · refine hs.same rfl rfl rfl rfl hbefore rfl ?_ (fun _ hanswer => .inl hanswer)
      (fun _ _ => rfl) hnothing
    intro put hput
    obtain hold | hnew := List.mem_append.mp hput
    · exact .inl hold
    · rw [List.mem_singleton.mp hnew]
      exact .inr rfl

/-- What storage answers is written down; a part it took is not sent again. -/
theorem respond (hs : s.Consistent transfer) {number attempt : ℕ} {url : String}
    (hphase : s.phase i = .putting number attempt url) (response : PutResponse)
    {phase : SendPhase} (hafter : phase = .answered number response ∨
      phase = .pausing number attempt url ∧ ¬response.ok) :
    ({ s with answers := s.answers ++ [(number, response)] }.move i phase : SendState).Consistent
      transfer := by
  have hbefore : (s.phase i).number = some number := by
    rw [hphase]
    rfl
  have hnothing : s.succeeded number = [] := by
    have hsaid := hs.said i
    rwa [hphase] at hsaid
  have hsucceeded := succeeded_append (s := s) (t :=
    { s with answers := s.answers ++ [(number, response)] }.move i phase) rfl
  refine hs.same rfl rfl rfl rfl hbefore ?_ (fun _ hput => .inl hput) ?_ ?_ ?_
  · obtain rfl | ⟨rfl, -⟩ := hafter <;> rfl
  · intro answer hanswer
    obtain hold | hnew := List.mem_append.mp hanswer
    · exact .inl hold
    · rw [List.mem_singleton.mp hnew]
      exact .inr rfl
  · intro other hother
    rw [hsucceeded, if_neg (fun htaken => hother htaken.1.symm), List.append_nil]
  · obtain rfl | ⟨rfl, hrefused⟩ := hafter
    · show succeeded _ number = _
      rw [hsucceeded, hnothing, List.nil_append]
      simp
    · show succeeded _ number = []
      rw [hsucceeded, hnothing, List.nil_append, if_neg (fun htaken => hrefused htaken.2)]

/-- A part whose answer carries an ETag was taken. -/
theorem putPart_ok {response : PutResponse} {etag : String} (hput : putPart response = .ok etag) :
    response.ok = true ∧ response.etag = some etag := by
  unfold putPart at hput
  split at hput
  · exact absurd hput nofun
  · rename_i hok
    split at hput
    · exact absurd hput nofun
    · rename_i found hfound
      obtain rfl := Except.ok.inj hput
      exact ⟨by simpa using hok, (Option.filter_eq_some_iff.mp hfound).1⟩

/-- Every loop that can move keeps its books. -/
theorem step (hs : s.Consistent transfer) {action : SendAction}
    (hstep : transferStep transfer s action = some t) : t.Consistent transfer := by
  cases action with
  | go i =>
      simp only [transferStep] at hstep
      cases hphase : s.phase i with
      | looping =>
          simp only [hphase, Option.some.injEq] at hstep
          rw [← hstep]
          exact hs.loop hphase
      | answered number response =>
          have hbefore : (s.phase i).number = some number := by
            rw [hphase]
            rfl
          simp only [hphase] at hstep
          cases hput : putPart response with
          | error error =>
              simp only [hput, Option.some.injEq] at hstep
              rw [← hstep]
              exact hs.fail (moving_of_number hbefore) error
          | ok etag =>
              simp only [hput, Option.some.injEq] at hstep
              rw [← hstep]
              obtain ⟨hok, hetag⟩ := putPart_ok hput
              have hsaid := hs.said i
              rw [hphase] at hsaid
              refine hs.same rfl rfl rfl rfl hbefore rfl (fun _ hold => .inl hold)
                (fun _ hold => .inl hold) (fun _ _ => rfl) ⟨response, ?_, hetag⟩
              exact hsaid.trans (if_pos hok)
      | tagged number etag =>
          simp only [hphase, Option.some.injEq] at hstep
          rw [← hstep]
          exact hs.store hphase
      | signing | putting | refused | pausing | finished | failed => simp [hphase] at hstep
  | sign i answer =>
      simp only [transferStep] at hstep
      cases hphase : s.phase i with
      | signing number =>
          have hbefore : (s.phase i).number = some number := by
            rw [hphase]
            rfl
          simp only [hphase] at hstep
          cases hsign : signPart number answer with
          | error error =>
              simp only [hsign, Option.some.injEq] at hstep
              rw [← hstep]
              exact hs.fail (moving_of_number hbefore) error
          | ok url =>
              simp only [hsign, Option.some.injEq] at hstep
              rw [← hstep]
              have hsaid := hs.said i
              rw [hphase] at hsaid
              exact hs.startPut hbefore hsaid 1 url
      | looping | putting | refused | pausing | answered | tagged | finished | failed =>
          simp [hphase] at hstep
  | respond i response =>
      simp only [transferStep] at hstep
      cases hphase : s.phase i with
      | putting number attempt url =>
          simp only [hphase] at hstep
          split at hstep
          · rw [← Option.some.inj hstep]
            exact hs.respond hphase response (.inl rfl)
          · rename_i hretried
            rw [← Option.some.inj hstep]
            exact hs.respond hphase response (.inr ⟨rfl, fun hok => hretried (.inl hok)⟩)
      | looping | signing | refused | pausing | answered | tagged | finished | failed =>
          simp [hphase] at hstep
  | drop i message =>
      simp only [transferStep] at hstep
      cases hphase : s.phase i with
      | putting number attempt url | refused number attempt url =>
          have hbefore : (s.phase i).number = some number := by
            rw [hphase]
            rfl
          simp only [hphase] at hstep
          split at hstep
          · rw [← Option.some.inj hstep]
            exact hs.fail (moving_of_number hbefore) _
          · split at hstep
            · rw [← Option.some.inj hstep]
              exact hs.fail (moving_of_number hbefore) _
            · rw [← Option.some.inj hstep]
              have hsaid := hs.said i
              rw [hphase] at hsaid
              exact hs.same rfl rfl rfl rfl hbefore rfl (fun _ hold => .inl hold)
                (fun _ hold => .inl hold) (fun _ _ => rfl) hsaid
      | looping | signing | pausing | answered | tagged | finished | failed =>
          simp [hphase] at hstep
  | wake i =>
      simp only [transferStep] at hstep
      cases hphase : s.phase i with
      | pausing number attempt url =>
          have hbefore : (s.phase i).number = some number := by
            rw [hphase]
            rfl
          simp only [hphase, Option.some.injEq] at hstep
          rw [← hstep]
          have hsaid := hs.said i
          rw [hphase] at hsaid
          exact hs.startPut hbefore hsaid (attempt + 1) url
      | looping | signing | putting | refused | answered | tagged | finished | failed =>
          simp [hphase] at hstep
  | resolve =>
      obtain ⟨⟨-, hfinished⟩, hsome⟩ := Option.ite_none_right_eq_some.mp hstep
      rw [← Option.some.inj hsome]
      refine { hs with settled := fun parts hparts => ⟨hfinished, ?_⟩ }
      exact (Except.ok.inj (Option.some.inj hparts)).symm
  | reject i =>
      simp only [transferStep] at hstep
      split at hstep
      · rw [← Option.some.inj hstep]
        exact { hs with settled := fun parts hparts => absurd (Option.some.inj hparts) nofun }
      · exact absurd hstep nofun
  | cancel =>
      simp only [transferStep] at hstep
      split at hstep
      · rw [← Option.some.inj hstep]
        exact hs
      · rw [← Option.some.inj hstep]
        exact { hs with }

end Consistent

/-! ## The call of `sendParts` -/

theorem loop_phase {j : ℕ} (hj : j ≠ i) : (s.loop transfer i).phase j = s.phase j := by
  have hmoved : ∀ phase, (s.move i phase).phase j = s.phase j := fun phase =>
    Function.update_of_ne hj _ _
  unfold SendState.loop
  split
  · exact hmoved _
  · split
    · exact hmoved _
    · exact hmoved _

theorem consistent_open (transfer : Transfer) :
    (openTransfer transfer).Consistent transfer := by
  have hphase : ∀ i, (openTransfer transfer).phase i = .looping ∨
      (openTransfer transfer).phase i = .finished := by
    intro i
    unfold openTransfer
    simp only
    split
    · exact .inl rfl
    · exact .inr rfl
  have hnone : ∀ i, ((openTransfer transfer).phase i).number = none := by
    intro i
    obtain hi | hi := hphase i <;> rw [hi] <;> rfl
  exact {
    taken := fun i number hi => absurd ((hnone i).symm.trans hi) nofun
    apart := fun i j number hi => absurd ((hnone i).symm.trans hi) nofun
    puts := nofun
    answers := nofun
    said := fun i => by obtain hi | hi := hphase i <;> rw [hi] <;> trivial
    kept := nofun
    held := fun index hindex etag hetag => (if_pos hindex).trans hetag
    drained := fun i hi hfinished => absurd ((if_pos hi).symm.trans hfinished) nofun
    idle := fun i hi => if_neg (Nat.not_lt.mpr hi)
    settled := nofun }

theorem consistent_start (transfer : Transfer) :
    (startTransfer transfer).Consistent transfer := by
  -- The loops come to their first await one after the other.
  have hbegun : ∀ k ≤ transfer.sends, ∀ s : SendState,
      s = (List.range k).foldl (fun s i => s.loop transfer i) (openTransfer transfer) →
      s.Consistent transfer ∧ ∀ i, k ≤ i → s.phase i = (openTransfer transfer).phase i := by
    intro k
    induction k with
    | zero =>
        rintro - s rfl
        exact ⟨consistent_open transfer, fun _ _ => rfl⟩
    | succ k ih =>
        rintro hk s rfl
        obtain ⟨hconsistent, hrest⟩ := ih (Nat.le_of_succ_le hk) _ rfl
        rw [List.range_succ, List.foldl_append]
        refine ⟨hconsistent.loop ((hrest k (Nat.le_refl k)).trans (if_pos hk)), fun i hi => ?_⟩
        exact (loop_phase (Nat.ne_of_gt hi)).trans (hrest i (Nat.le_of_succ_le hi))
  exact (hbegun transfer.sends (Nat.le_refl _) _ rfl).1

theorem Consistent.of_reachable (hreach : (sendSystem transfer).Reachable s) :
    s.Consistent transfer := by
  refine hreach.invariant (Consistent transfer) ?_ fun _ _ _ _ hs _ hstep => hs.step hstep
  rintro s rfl
  exact consistent_start transfer

end SendState

end Frontend
end MediaPlayer
