import EventPipeline.Consumer.Assembly
import EventPipeline.Proofs.Text.Listing
/-!
# Lists in the settings

Hosts, topics and columns are comma separated lists. The broker client is given its hosts joined
again, and reads the same ones out of them (`servers_of_clientConfig`); without a host or without a
topic there is no configuration of it, and for no other reason (`clientConfig_eq_error_iff`).
-/
namespace EventPipeline.Settings

open Text (listed Entry Padded NoEntry)

/-- The hosts reach the broker client in a form that is read as the same hosts. -/
theorem servers_of_clientConfig {b : Broker} {m : Membership} {config : ClientConfig}
    (h : clientConfig b m = .ok config) :
    ∃ servers, config.find? "bootstrap.servers" = some servers ∧ listed servers = b.hostList := by
  refine ⟨String.intercalate "," b.hostList, ?_,
    Text.listed_intercalate (.of_entries fun x hx => Text.entry_of_mem_listed hx)⟩
  by_cases hhosts : b.hostList = []
  · rw [clientConfig, if_pos hhosts] at h
    cases h
  · by_cases htopics : m.topics = []
    · rw [clientConfig, if_neg hhosts, if_pos htopics] at h
      cases h
    · rw [clientConfig, if_neg hhosts, if_neg htopics] at h
      rw [← Except.ok.inj h]
      refine Dict.find?_ofList_of_mem List.mem_cons_self fun w hw => ?_
      cases hversion : b.version <;> by_cases htls : b.tls <;> simpa [hversion, htls] using hw

theorem clientConfig_eq_error_iff {b : Broker} {m : Membership} {e : InvalidBroker} :
    clientConfig b m = .error e ↔
      (b.hostList = [] ∧ e = .hostsMissing) ∨
        (b.hostList ≠ [] ∧ m.topics = [] ∧ e = .topicsMissing) := by
  by_cases hhosts : b.hostList = []
  · rw [clientConfig, if_pos hhosts]
    simp [hhosts, eq_comm]
  · by_cases htopics : m.topics = []
    · rw [clientConfig, if_neg hhosts, if_pos htopics]
      simp [hhosts, htopics, eq_comm]
    · rw [clientConfig, if_neg hhosts, if_neg htopics]
      simp [hhosts, htopics]

/-- No configuration is due to hosts or topics, and the consumer that is made says so. -/
theorem makeClient_eq_invalidConfig_iff {b : Broker} {m : Membership} {e : InvalidBroker} :
    Consumer.makeClient b m = .error (.invalidConfig e) ↔ clientConfig b m = .error e := by
  rw [Consumer.makeClient]
  cases clientConfig b m with
  | error e' => simp
  | ok config =>
    cases clientRefusal? b m with
    | none => simp
    | some reason => simp

/-- **Comma separated settings.** What is read from a text is a list of entries; a list of entries
is read from every text that spaces it in some way, and two lists are read one after the other. So
the broker client reads the configured hosts, its configuration is missing exactly if there is no
host or no topic in the texts for them, and rows have the columns that are listed. -/
theorem lists_normal_form :
    (∀ s, ∀ x ∈ listed s, Entry x) ∧
    (∀ xs parts, Padded xs parts → listed (String.intercalate "," parts) = xs) ∧
    (∀ xs, (∀ x ∈ xs, Entry x) → listed (String.intercalate "," xs) = xs) ∧
    (∀ s t, listed (s ++ "," ++ t) = listed s ++ listed t) ∧
    (∀ b m config, clientConfig b m = .ok config →
      ∃ servers, config.find? "bootstrap.servers" = some servers ∧ listed servers = b.hostList) ∧
    (∀ b m topics, m.topics = listed topics →
      (Consumer.makeClient b m = .error (.invalidConfig .hostsMissing) ↔ NoEntry b.hosts) ∧
      (Consumer.makeClient b m = .error (.invalidConfig .topicsMissing) ↔
        ¬NoEntry b.hosts ∧ NoEntry topics) ∧
      ((∃ e, clientConfig b m = .error e) ↔ NoEntry b.hosts ∨ NoEntry topics)) ∧
    (∀ s, Marshaler.ofName? "csv" s = Marshaler.ofHeaders (listed s)) ∧
    (∀ xs parts, Padded xs parts →
      Marshaler.ofName? "csv" (String.intercalate "," parts) = Marshaler.ofHeaders xs) := by
  refine ⟨fun s x hx => Text.entry_of_mem_listed hx, fun xs parts h => Text.listed_intercalate h,
    fun xs h => Text.listed_intercalate (.of_entries h), Text.listed_append,
    fun b m config h => servers_of_clientConfig h, fun b m topics htopics => ?_, fun s => rfl,
    fun xs parts h => ?_⟩
  · have hhosts : b.hostList = [] ↔ NoEntry b.hosts := Text.listed_eq_nil_iff
    have hnone : m.topics = [] ↔ NoEntry topics := by rw [htopics, Text.listed_eq_nil_iff]
    refine ⟨?_, ?_, ?_⟩
    · rw [makeClient_eq_invalidConfig_iff, clientConfig_eq_error_iff, hhosts]
      simp
    · rw [makeClient_eq_invalidConfig_iff, clientConfig_eq_error_iff, Ne, hhosts, hnone]
      simp
    · simp only [clientConfig_eq_error_iff, Ne, hhosts, hnone]
      by_cases hno : NoEntry b.hosts <;> simp [hno]
  · have hread := Text.listed_intercalate h
    show Marshaler.ofHeaders (listed _) = _
    rw [hread]

/-- A broker with two hosts, a blank entry between them and a wide blank at the end. -/
def twoHosts : Broker := ⟨" kafka-1:9092,, kafka-2:9092\u3000", false, none⟩

/-- A membership for one topic. -/
def oneTopic : Membership := ⟨"default", ["event-log"], .newest, 5000, 100⟩

theorem lists_normal_form_twoHosts :
    (∃ config servers, clientConfig twoHosts oneTopic = .ok config ∧
      config.find? "bootstrap.servers" = some servers ∧
      listed servers = ["kafka-1:9092", "kafka-2:9092"]) ∧
    Consumer.makeClient ⟨" ,\t", false, none⟩ oneTopic =
      .error (.invalidConfig .hostsMissing) := by
  obtain ⟨-, hspaced, -, -, hservers, hinvalid, -, -⟩ := lists_normal_form
  have hread : listed twoHosts.hosts = ["kafka-1:9092", "kafka-2:9092"] :=
    hspaced ["kafka-1:9092", "kafka-2:9092"] [" kafka-1:9092", "", " kafka-2:9092\u3000"]
      (@Padded.entry " " "kafka-1:9092" "" _ _ (by decide) (by decide) (by decide)
        (.blank (by decide)
          (@Padded.entry " " "kafka-2:9092" "\u3000" _ _ (by decide) (by decide) (by decide) .nil)))
  have htopics : oneTopic.topics = listed "event-log" := by decide
  obtain ⟨-, -, hfails⟩ := hinvalid twoHosts oneTopic "event-log" htopics
  obtain ⟨hmissing, -, -⟩ := hinvalid ⟨" ,\t", false, none⟩ oneTopic "event-log" htopics
  refine ⟨?_, hmissing.2 (by decide)⟩
  cases hconfig : clientConfig twoHosts oneTopic with
  | error e => exact absurd (hfails.1 ⟨e, hconfig⟩) (by decide)
  | ok config =>
    obtain ⟨servers, hfind, hlisted⟩ := hservers twoHosts oneTopic config hconfig
    exact ⟨config, servers, rfl, hfind, hlisted.trans hread⟩

end EventPipeline.Settings
