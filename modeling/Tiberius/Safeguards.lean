import Tiberius.ConnectionString
import Tiberius.Exposure

/-!
What a connection string and the setters called behind it decide about the security of
a connection. Certificates are not looked at only where one of them says so, and then
none is named; a login goes out in the clear only where the last one to speak of the
encryption has given it up by name.
-/

namespace Tiberius

open PacketCodec

namespace ConfigCall

/-- The encryption that a call asks for. -/
def level : ConfigCall → Option EncryptionLevel
  | .encryption level => some level
  | _ => none

/-- The certificate that a call names. -/
def extraCa : ConfigCall → Option ExtraCa
  | .trustCertCa path => some (.file path)
  | .trustCertCaBundle bundle => some (.bundle bundle)
  | _ => none

end ConfigCall

/-- Certificates that are not looked at are not named either. -/
def TrustConfig.Settled (trust : TrustConfig) : Prop :=
  trust.bypass = true → trust.extraCas = [] ∧ trust.source = .native

namespace Config

/-- Calls of setters, up to the first that panics. -/
def run (config : Config) (calls : List ConfigCall) : Except Fault Config :=
  calls.foldlM call config

/-- What the last call that speaks of the encryption says. -/
def lastLevel (calls : List ConfigCall) : Option EncryptionLevel :=
  calls.reverse.findSome? ConfigCall.level

/-- One call, as far as it is about security. -/
structure Called (config : Config) (setter : ConfigCall) (after : Config) : Prop where
  encryption : after.encryption = setter.level.getD config.encryption
  bypass : after.trust.bypass = true ↔ config.trust.bypass = true ∨ setter = .trustCert
  extraCas : after.trust.extraCas = config.trust.extraCas ++ setter.extraCa.toList
  settled : config.trust.Settled → after.trust.Settled

theorem called_of_pushCa {config after : Config} {ca : ExtraCa} {setter : ConfigCall}
    (hlevel : setter.level = none) (hca : setter.extraCa = some ca) (hother : setter ≠ .trustCert)
    (hpush : config.pushCa ca = .ok after) : Called config setter after := by
  unfold pushCa at hpush
  by_cases hbypass : config.trust.bypass = true
  · simp [hbypass] at hpush
  · simp only [if_neg hbypass, Except.ok.injEq] at hpush
    subst hpush
    refine ⟨by simp [hlevel], by simp [hother], by simp [hca], ?_⟩
    intro _ hbypassed
    exact absurd hbypassed hbypass

theorem called_of_trustCert {config after : Config} (htrust : config.trustCert = .ok after) :
    Called config .trustCert after := by
  unfold trustCert at htrust
  by_cases hnamed : (!config.trust.extraCas.isEmpty || config.trust.source ≠ .native) = true
  · rw [if_pos hnamed] at htrust
    cases htrust
  · simp only [if_neg hnamed, Except.ok.injEq] at htrust
    subst htrust
    refine ⟨rfl, by simp, by simp [ConfigCall.extraCa], ?_⟩
    intro _ _
    simpa using hnamed

theorem called_of_trustWebpkiRoots {config after : Config}
    (htrust : config.trustWebpkiRoots = .ok after) : Called config .trustWebpkiRoots after := by
  unfold trustWebpkiRoots at htrust
  by_cases hbypass : config.trust.bypass = true
  · simp [hbypass] at htrust
  · simp only [if_neg hbypass, Except.ok.injEq] at htrust
    subst htrust
    refine ⟨rfl, by simp, by simp [ConfigCall.extraCa], ?_⟩
    intro _ hbypassed
    exact absurd hbypassed hbypass

theorem called_of_call {config after : Config} {setter : ConfigCall}
    (hcall : config.call setter = .ok after) : Called config setter after := by
  cases setter with
  | trustCert => exact called_of_trustCert hcall
  | trustCertCa path => exact called_of_pushCa rfl rfl (by simp) hcall
  | trustCertCaBundle bundle => exact called_of_pushCa rfl rfl (by simp) hcall
  | trustWebpkiRoots => exact called_of_trustWebpkiRoots hcall
  | _ =>
    cases hcall
    exact ⟨rfl, by simp, by simp [ConfigCall.extraCa], fun hsettled => hsettled⟩

/-- A whole run of calls, as far as it is about security. -/
structure Ran (config : Config) (calls : List ConfigCall) (after : Config) : Prop where
  encryption : after.encryption = (lastLevel calls).getD config.encryption
  bypass : after.trust.bypass = true ↔ config.trust.bypass = true ∨ .trustCert ∈ calls
  extraCas : after.trust.extraCas = config.trust.extraCas ++ calls.filterMap ConfigCall.extraCa
  settled : config.trust.Settled → after.trust.Settled

theorem lastLevel_cons (setter : ConfigCall) (calls : List ConfigCall) :
    lastLevel (setter :: calls) = (lastLevel calls).or setter.level := by
  simp [lastLevel, List.findSome?_append]

theorem ran_of_run {calls : List ConfigCall} {config after : Config}
    (hrun : config.run calls = .ok after) : Ran config calls after := by
  induction calls generalizing config with
  | nil =>
    cases hrun
    exact ⟨rfl, by simp, by simp, fun hsettled => hsettled⟩
  | cons setter calls ih =>
    obtain ⟨middle, hcall, hmore⟩ := Except.of_bind_ok hrun
    have hcalled := called_of_call hcall
    have hran := ih hmore
    refine ⟨?_, ?_, ?_, fun hsettled => hran.settled (hcalled.settled hsettled)⟩
    · rw [hran.encryption, hcalled.encryption, lastLevel_cons]
      cases lastLevel calls <;> simp
    · rw [hran.bypass, hcalled.bypass, List.mem_cons, or_assoc, @eq_comm _ setter]
    · rw [hran.extraCas, hcalled.extraCas, List.append_assoc]
      cases h : setter.extraCa <;> simp [h]

/-- The certificates that a connection string and calls behind it have trusted. -/
structure Trusts (s : ConfigString) (calls : List ConfigCall) (trust : TrustConfig) : Prop where
  settled : trust.Settled
  bypass : trust.bypass = true ↔ s.trustCert = .ok true ∨ .trustCert ∈ calls
  extraCas : trust.extraCas =
    s.trustCertCa.toList.map .file ++ calls.filterMap ConfigCall.extraCa

/-- The last to speak of the encryption has given it up. -/
def Waived (s : ConfigString) (calls : List ConfigCall) : Prop :=
  lastLevel calls = some .notSupported ∨
    lastLevel calls = none ∧ s.dict "encrypt" = some ConfigString.plaintext

/-- With a TLS backend there is one value only that gives encryption up. -/
theorem encrypt_eq_notSupported {features : Features} {s : ConfigString}
    (htls : features.tls = true) (hlevel : s.encrypt features = .ok .notSupported) :
    s.dict "encrypt" = some ConfigString.plaintext := by
  unfold ConfigString.encrypt at hlevel
  rw [htls] at hlevel
  cases hval : s.dict "encrypt" with
  | none => simp [hval] at hlevel
  | some val =>
    by_contra hother
    have hval' : val ≠ ConfigString.plaintext := by
      rintro rfl
      exact hother rfl
    simp only [hval] at hlevel
    split at hlevel
    · simp at hlevel
    · simp at hlevel
    · rw [if_neg hval'] at hlevel
      split at hlevel
      · split at hlevel <;> simp at hlevel
      · simp at hlevel

variable {features : Features} {s : ConfigString} {calls : List ConfigCall} {start config : Config}

theorem Described.trusts (hdescribed : Described features s start) (hran : Ran start calls config) :
    Trusts s calls config.trust := by
  refine ⟨hran.settled fun hbypass => ?_, ?_, ?_⟩
  · simp [hdescribed.extraCas, hdescribed.source, hdescribed.consistent hbypass]
  · rw [hran.bypass, hdescribed.bypass, Except.ok.injEq]
  · rw [hran.extraCas, hdescribed.extraCas]

theorem Described.waived (htls : features.tls = true) (hdescribed : Described features s start)
    (hran : Ran start calls config) (hlevel : config.encryption = .notSupported) :
    Waived s calls := by
  rw [hran.encryption] at hlevel
  cases hlast : lastLevel calls with
  | some level =>
    rw [hlast, Option.getD_some] at hlevel
    exact .inl (by rw [hlast, hlevel])
  | none =>
    rw [hlast, Option.getD_none] at hlevel
    have hencrypt := hdescribed.encryption
    rw [hlevel] at hencrypt
    exact .inr ⟨hlast, encrypt_eq_notSupported htls hencrypt⟩

end Config

namespace Establish

open Config

/-- Something behind the opening has gone out on a socket that TLS was never put on. -/
def Unprotected (platform : Platform) (config : Config) (written : List (Channel × List UInt8)) :
    Prop :=
  ∃ part, written = [(.raw, part)] ∧ ¬part <+: opening platform config

theorem Exposure.of_unprotected {platform : Platform} {config : Config} {peer : Peer}
    {written : List (Channel × List UInt8)} (hexposure : Exposure platform config peer written)
    (hunprotected : Unprotected platform config written) :
    config.encryption = .notSupported ∧ Offers platform peer .notSupported := by
  obtain ⟨part, hwritten, hbehind⟩ := hunprotected
  cases hexposure with
  | opening other hother =>
    obtain rfl : other = part := by simpa using hwritten
    exact absurd hother hbehind
  | secured inside => simp at hwritten
  | answered inside back hours htheirs hinside hback => simp at hwritten
  | plain text hours htheirs => exact ⟨hours, htheirs⟩

/-- No connection string makes the driver panic. Where one is accepted, and whatever
setters are called behind it, certificates are trusted as they say and never both named
and passed over, and nothing behind the pre-login goes out on a socket that TLS was never
put on unless the last to speak of the encryption has given it up and the server has, too. -/
theorem fromAdoString_safeguards [StdLib] [EncodingRs] (platform : Platform)
    (htls : platform.features.tls = true) (text : String) :
    fromAdoString platform.features text ≠ .error .panic ∧
      ∀ calls config, (fromAdoString platform.features text >>= fun start => start.run calls) =
          .ok config →
        ∃ s, AdoPairs text s ∧ Trusts s calls config.trust ∧
          ∀ peer, Unprotected platform config (connect platform config peer).state.written →
            Waived s calls ∧ Offers platform peer .notSupported := by
  refine ⟨fromAdoString_ne_panic text, fun calls config hconfig => ?_⟩
  obtain ⟨start, hstart, hrun⟩ := Except.of_bind_ok hconfig
  obtain ⟨s, hpairs, hdescribed⟩ := described_of_fromAdoString hstart
  have hran := ran_of_run hrun
  refine ⟨s, hpairs, hdescribed.trusts hran, fun peer hunprotected => ?_⟩
  rw [connect_state] at hunprotected
  obtain ⟨hours, htheirs⟩ := ((triple_establish htls).holds rfl).of_unprotected hunprotected
  exact ⟨hdescribed.waived htls hran hours, htheirs⟩

theorem fromAdoString_safeguards_named :
    ∃ config,
      (fromAdoString plainPlatform.features "trustservercertificateca=a.pem" >>= fun start =>
        start.run [.trustCertCaBundle [1], .encryption .on]) = .ok config ∧
      ∃ s, AdoPairs "trustservercertificateca=a.pem" s ∧
        Trusts s [.trustCertCaBundle [1], .encryption .on] config.trust ∧
        ∀ peer, Unprotected plainPlatform config
            (@connect plainPlatform config peer .exact .ascii).state.written →
          Waived s [.trustCertCaBundle [1], .encryption .on] ∧
            Offers plainPlatform peer .notSupported := by
  have hsafe := (@fromAdoString_safeguards .exact .ascii plainPlatform rfl
    "trustservercertificateca=a.pem").2 [.trustCertCaBundle [1], .encryption .on]
  exact ⟨_, rfl, hsafe _ rfl⟩

end Establish

end Tiberius
