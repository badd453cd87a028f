import BbzPlatform.Lib.Turns

/-!
# The active providers

A process caches one provider for each domain.  The cache is looked at before the configuration is
read and the provider initialised, and it is filled behind that.  Whoever calls in between builds a
provider too, which takes the place of the first.
-/

namespace BbzPlatform.Integrations

open Function (update update_self update_of_ne)

inductive Domain where
  | telephony
  | video
  | weather
  | monitor
  deriving DecidableEq, Repr

/-- What is set for the process: the integration of each domain, and the manifests there are. -/
structure Settings where
  integrationId : Domain → String
  discovered : Domain → String → Bool

/-- How far a caller has come: it awaits the configuration, or `initialize` of the provider that it
has built. -/
inductive Phase where
  | idle
  | configuring
  | initializing (d : Domain) (provider : ℕ)

/-- A call begins, goes on behind an await or raises there, and the SIP provider is evicted. -/
inductive Move where
  | call (d : Domain)
  | configured
  | initialized
  | raised
  | evict

/-- The cache, whose keys name the domain, the callers, and the number of providers that have been
built.  The rest is recorded: the providers that have been initialised or handed to `shutdown`, and
those that callers have got since the last eviction. -/
structure System where
  cache : Domain → Option ℕ
  phase : ℕ → Phase
  built : ℕ
  initialised : Domain → List ℕ
  shutdown : Domain → List ℕ
  returned : Domain → List ℕ

namespace System

variable (settings : Settings) (s : System) (p : ℕ)

def goto (phase : Phase) : System := { s with phase := update s.phase p phase }

/-- A caller gets a provider. -/
def returns (d : Domain) (provider : ℕ) : System :=
  { s.goto p .idle with returned := update s.returned d (s.returned d ++ [provider]) }

/-- `_load`, up to the await of `initialize`. -/
def load (d : Domain) : System := { s.goto p (.initializing d s.built) with built := s.built + 1 }

/-- `active_telephony_provider`, `active_video_provider`, `active_weather_provider` and
`active_monitor_provider`, up to the first await.  Only the first reads a configuration.  A call
that raises here changes nothing. -/
def activeProvider (d : Domain) : Option System :=
  match s.cache d with
  | some provider => some (s.returns p d provider)
  | none =>
    if settings.discovered d (settings.integrationId d) then
      some (if d = .telephony then s.goto p .configuring else s.load p d)
    else none

/-- The end of `initialize`: the provider is cached and returned. -/
def fill (d : Domain) (provider : ℕ) : System :=
  { s.returns p d provider with
    cache := update s.cache d (some provider)
    initialised := update s.initialised d (s.initialised d ++ [provider]) }

/-- `evict_telephony_provider`. -/
def evictTelephonyProvider : System :=
  if settings.integrationId .telephony ≠ "telephony_sip" then s
  else { s with
    cache := update s.cache .telephony none
    shutdown := update s.shutdown .telephony
      (s.shutdown .telephony ++ (s.cache .telephony).toList)
    returned := update s.returned .telephony [] }

def step : Move → Option System
  | .evict => some (s.evictTelephonyProvider settings)
  | m =>
    match s.phase p, m with
    | .idle, .call d => s.activeProvider settings p d
    | .configuring, .configured => some (s.load p .telephony)
    | .initializing d provider, .initialized => some (s.fill p d provider)
    | .configuring, .raised | .initializing _ _, .raised => some (s.goto p .idle)
    | _, _ => none

end System

/-- All callers since the last eviction have got one provider, and a provider that was initialised
is cached or has been handed to `shutdown`. -/
structure OneLive (s : System) : Prop where
  same : ∀ d, ∀ a ∈ s.returned d, ∀ b ∈ s.returned d, a = b
  accounted : ∀ d, ∀ a ∈ s.initialised d, s.cache d = some a ∨ a ∈ s.shutdown d

/-- There is one live provider behind the move. -/
def KeepsOne (settings : Settings) (s : System) (p : ℕ) (m : Move) : Prop :=
  ∀ t, s.step settings p m = some t → OneLive t

/-- An initialisation that ends finds nothing in the cache. -/
def Unfilled (s : System) (p : ℕ) : Move → Prop
  | .initialized => ∀ d provider, s.phase p = .initializing d provider → s.cache d = none
  | _ => True

/-! ## Callers that do not overlap -/

/-- Providers are cached once they are initialised, and until they are handed to `shutdown`; those
that callers await are new. -/
structure Sound (s : System) : Prop where
  returned : ∀ d, ∀ a ∈ s.returned d, s.cache d = some a
  accounted : ∀ d, ∀ a ∈ s.initialised d, s.cache d = some a ∨ a ∈ s.shutdown d
  cached : ∀ d a, s.cache d = some a → a ∈ s.initialised d ∧ a ∉ s.shutdown d
  ended : ∀ d, ∀ a ∈ s.shutdown d, a ∈ s.initialised d
  numbered : ∀ d, ∀ a ∈ s.initialised d, a < s.built
  awaited : ∀ q d b, s.phase q = .initializing d b → b < s.built ∧ b ∉ s.initialised d
  alone : ∀ q q' d d' b, s.phase q = .initializing d b → s.phase q' = .initializing d' b → q = q'

variable {settings : Settings} {s t : System} {p a b : ℕ} {m : Move} {d : Domain}

theorem Sound.oneLive (h : Sound s) : OneLive s :=
  ⟨fun d a ha b hb => Option.some.inj ((h.returned d a ha).symm.trans (h.returned d b hb)),
    h.accounted⟩

/-- A caller goes on, at most with a provider that is new. -/
theorem Sound.goto (h : Sound s) {x : Phase} {n : ℕ} (hn : s.built ≤ n)
    (hx : ∀ d b, x = .initializing d b → s.built ≤ b ∧ b < n) :
    Sound { s.goto p x with built := n } := by
  have hphase : ∀ {q d b}, update s.phase p x q = .initializing d b →
      q = p ∧ s.built ≤ b ∧ b < n ∨ s.phase q = .initializing d b := by
    intro q d b hq
    by_cases hqp : q = p
    · rw [hqp, update_self] at hq
      exact .inl ⟨hqp, hx d b hq⟩
    · rw [update_of_ne hqp] at hq
      exact .inr hq
  refine ⟨h.returned, h.accounted, h.cached, h.ended,
    fun d a ha => Nat.lt_of_lt_of_le (h.numbered d a ha) hn, fun q d b hq => ?_,
    fun q q' d d' b hq hq' => ?_⟩
  · rcases hphase hq with ⟨-, hle, hlt⟩ | hq
    · exact ⟨hlt, fun hb => (h.numbered d b hb).not_ge hle⟩
    · exact ⟨Nat.lt_of_lt_of_le (h.awaited q d b hq).1 hn, (h.awaited q d b hq).2⟩
  · rcases hphase hq with ⟨rfl, hle, -⟩ | hold <;> rcases hphase hq' with ⟨rfl, hle', -⟩ | hold'
    · rfl
    · exact absurd hle (h.awaited _ _ _ hold').1.not_ge
    · exact absurd hle' (h.awaited _ _ _ hold).1.not_ge
    · exact h.alone q q' d d' b hold hold'

theorem Sound.idle (h : Sound s) : Sound (s.goto p .idle) := h.goto le_rfl nofun

theorem Sound.load (h : Sound s) : Sound (s.load p d) := by
  refine h.goto s.built.le_succ fun d' b hb => ?_
  cases hb
  exact ⟨le_rfl, s.built.lt_succ_self⟩

theorem mem_update_append {l : Domain → List ℕ} {d' : Domain} {c : ℕ} :
    c ∈ update l d (l d ++ [b]) d' ↔ c ∈ l d' ∨ d' = d ∧ c = b := by
  by_cases hd : d' = d
  · subst hd
    simp
  · simp [hd]

theorem Sound.returns (h : Sound s) (ha : s.cache d = some a) : Sound (s.returns p d a) := by
  refine { h.idle (p := p) with returned := fun d' c hc => ?_ }
  rcases mem_update_append.mp hc with hc | ⟨rfl, rfl⟩
  · exact h.returned d' c hc
  · exact ha

/-- An initialisation ends where nothing is cached. -/
theorem Sound.fill (h : Sound s) (hp : s.phase p = .initializing d b) (hnone : s.cache d = none) :
    Sound (s.fill p d b) := by
  have hnew := h.awaited p d b hp
  have hcache : ∀ {d' c}, s.cache d' = some c → update s.cache d (some b) d' = some c := by
    intro d' c hc
    rwa [update_of_ne]
    rintro rfl
    cases hnone.symm.trans hc
  refine ⟨fun d' c hc => ?_, fun d' c hc => ?_, fun d' c hc => ?_, fun d' c hc => ?_,
    fun d' c hc => ?_, fun q d' c hq => ?_, (h.idle (p := p)).alone⟩
  · rcases mem_update_append.mp hc with hc | ⟨rfl, rfl⟩
    · exact hcache (h.returned d' c hc)
    · exact update_self ..
  · rcases mem_update_append.mp hc with hc | ⟨rfl, rfl⟩
    · exact (h.accounted d' c hc).imp_left hcache
    · exact .inl (update_self ..)
  · by_cases hd : d' = d
    · subst hd
      obtain rfl : b = c := by simpa [System.fill] using hc
      exact ⟨mem_update_append.mpr (.inr ⟨rfl, rfl⟩), fun hmem => hnew.2 (h.ended d' b hmem)⟩
    · have hold := h.cached d' c (by simpa [System.fill, hd] using hc)
      exact ⟨mem_update_append.mpr (.inl hold.1), hold.2⟩
  · exact mem_update_append.mpr (.inl (h.ended d' c hc))
  · rcases mem_update_append.mp hc with hc | ⟨rfl, rfl⟩
    · exact h.numbered d' c hc
    · exact hnew.1
  · obtain ⟨hlt, hmem⟩ := (h.idle (p := p)).awaited q d' c hq
    refine ⟨hlt, fun hc => ?_⟩
    rcases mem_update_append.mp hc with hc | ⟨rfl, rfl⟩
    · exact hmem hc
    · have hqp : q ≠ p := by
        rintro rfl
        simp [System.fill, System.returns, System.goto] at hq
      have hq' : s.phase q = .initializing d' c := (update_of_ne hqp _ _).symm.trans hq
      exact hqp (h.alone q p d' d' c hq' hp)

theorem Sound.evict (h : Sound s) : Sound (s.evictTelephonyProvider settings) := by
  unfold System.evictTelephonyProvider
  split
  · exact h
  · refine { h with
      returned := fun d a ha => ?_, accounted := fun d a ha => ?_, cached := fun d a ha => ?_
      ended := fun d a ha => ?_ }
    · rcases eq_or_ne d .telephony with rfl | hd
      · simp at ha
      · simpa [hd] using h.returned d a (by simpa [hd] using ha)
    · rcases eq_or_ne d .telephony with rfl | hd
      · simpa [or_comm] using h.accounted _ a ha
      · simpa [hd] using h.accounted d a ha
    · rcases eq_or_ne d .telephony with rfl | hd
      · simp at ha
      · simpa [hd] using h.cached d a (by simpa [hd] using ha)
    · rcases eq_or_ne d .telephony with rfl | hd
      · obtain hold | hcached : a ∈ s.shutdown .telephony ∨ s.cache .telephony = some a := by
          simpa using ha
        · exact h.ended _ a hold
        · exact (h.cached _ a hcached).1
      · exact h.ended d a (by simpa [hd] using ha)

theorem Sound.call (h : Sound s) (hcall : s.activeProvider settings p d = some t) : Sound t := by
  unfold System.activeProvider at hcall
  split at hcall
  next provider hcached =>
    cases hcall
    exact h.returns hcached
  · split at hcall
    · cases hcall
      split
      · exact h.goto le_rfl nofun
      · exact h.load
    · cases hcall

/-- **A move keeps one live provider exactly if no initialisation ends where one is cached.** -/
theorem keepsOne_iff (h : Sound s) (hstep : s.step settings p m = some t) :
    (KeepsOne settings s p m ↔ Unfilled s p m) ∧ (Unfilled s p m → Sound t) := by
  have hsound : Unfilled s p m → Sound t := by
    intro hunfilled
    revert hstep
    fun_cases System.step settings s p m
    · rintro ⟨⟩
      exact h.evict
    · exact h.call
    · rintro ⟨⟩
      exact h.load
    next d provider hphase _ =>
      rintro ⟨⟩
      exact h.fill hphase (hunfilled d provider hphase)
    · rintro ⟨⟩
      exact h.idle
    · rintro ⟨⟩
      exact h.idle
    · rintro ⟨⟩
  refine ⟨⟨fun hkeeps => ?_, fun hunfilled u hu => ?_⟩, hsound⟩
  · cases m with
    | initialized =>
      intro d b hphase
      simp only [System.step, hphase, Option.some.injEq] at hstep
      subst hstep
      -- a provider that was cached is overwritten, and nobody shuts it down
      by_contra hfull
      obtain ⟨a, ha⟩ := Option.ne_none_iff_exists'.mp hfull
      obtain ⟨hmem, hnot⟩ := h.cached d a ha
      have hlive : OneLive (s.fill p d b) := hkeeps _ (by simp only [System.step, hphase])
      obtain heq | hshut := hlive.accounted d a (mem_update_append.mpr (.inl hmem))
      · obtain rfl : b = a := by simpa [System.fill] using heq
        exact (h.awaited p d b hphase).2 hmem
      · exact hnot hshut
    | _ => trivial
  · cases hstep.symm.trans hu
    exact (hsound hunfilled).oneLive

/-- A process that has built no provider. -/
def start : System := ⟨fun _ => none, fun _ => .idle, 0, fun _ => [], fun _ => [], fun _ => []⟩

theorem start_sound : Sound start :=
  ⟨nofun, nofun, nofun, nofun, nofun, nofun, nofun⟩

/-- **There is one live provider per domain exactly if no initialisation ends where a provider is
cached.**  From the start of a process, any callers, evictions and failures in any order. -/
theorem one_live_iff_unfilled {moves : List (ℕ × Move)}
    (hexec : Turns.execute (System.step settings) start moves = some t) :
    Turns.Allows (System.step settings) (KeepsOne settings) start moves ↔
      Turns.Allows (System.step settings) Unfilled start moves :=
  Turns.allows_congr (fun _ _ _ _ hs hstep => (keepsOne_iff hs hstep).1)
    (fun _ _ _ _ hs hunfilled hstep => (keepsOne_iff hs hstep).2 hunfilled) start_sound hexec

def sipSettings : Settings := ⟨fun _ => "telephony_sip", fun _ _ => true⟩

/-- Two callers behind an eviction, one after the other. -/
theorem one_live_in_turn :
    Turns.Allows (System.step sipSettings) (KeepsOne sipSettings) start
      [(0, .call .telephony), (0, .configured), (0, .initialized), (1, .call .telephony),
        (1, .evict), (0, .call .telephony), (0, .configured), (0, .initialized)] := by
  refine (one_live_iff_unfilled (by rfl)).mpr
    ⟨trivial, trivial, ?_, trivial, trivial, trivial, trivial, ?_, trivial⟩
  · rintro d provider ⟨⟩
    rfl
  · rintro d provider ⟨⟩
    rfl

/-- Two callers overlap: they get two providers, and the first is neither cached nor shut down. -/
theorem two_live_providers : ∃ s, Turns.execute (System.step sipSettings) start
      [(0, .call .telephony), (1, .call .telephony), (0, .configured), (0, .initialized),
        (1, .configured), (1, .initialized)] = some s ∧
    s.returned .telephony = [0, 1] ∧ s.initialised .telephony = [0, 1] ∧
    s.cache .telephony = some 1 ∧ s.shutdown .telephony = [] ∧ ¬ OneLive s := by
  refine ⟨_, rfl, rfl, rfl, rfl, rfl, fun h => ?_⟩
  cases h.same .telephony 0 List.mem_cons_self 1 (List.mem_cons_of_mem _ List.mem_cons_self)

end BbzPlatform.Integrations
