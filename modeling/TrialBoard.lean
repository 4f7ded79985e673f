import TrialBoard.Gateway.Push
import TrialBoard.Main
import TrialBoard.Proofs.DetailMerge
import TrialBoard.Proofs.FeedReading
import TrialBoard.Proofs.Forwarding
import TrialBoard.Proofs.TailDelivery
import TrialBoard.Store.Broken
import TrialBoard.Store.Memory
import TrialBoard.Proofs.RelayLaws
import TrialBoard.Proofs.RelayDelivery
import TrialBoard.Proofs.Replay
import TrialBoard.Proofs.TableRows
import TrialBoard.Proofs.PrintedText
import TrialBoard.Proofs.LenientReading
import TrialBoard.Proofs.Extraction
import TrialBoard.Proofs.WatchRun
import TrialBoard.Proofs.Outstanding
import TrialBoard.Proofs.WatchOutcome
import TrialBoard.Proofs.Interleaving
import TrialBoard.Proofs.Requests
import TrialBoard.Proofs.Isolation
import TrialBoard.Proofs.ReadingBack
import TrialBoard.Proofs.Recording
import TrialBoard.Proofs.Agreement
import TrialBoard.Proofs.LogReplay
import TrialBoard.Proofs.PushRun
import TrialBoard.Proofs.Usage
import TrialBoard.Proofs.DecodedText
import TrialBoard.Proofs.DetailText
import TrialBoard.Proofs.LiveView
import TrialBoard.Proofs.RelayRest
import TrialBoard.Proofs.RelaySharing
import TrialBoard.Proofs.PushProtocol
import TrialBoard.Proofs.DecodedValues
import TrialBoard.Proofs.EncodedText
import TrialBoard.Proofs.InstantText
import TrialBoard.Proofs.MessageText
import TrialBoard.Proofs.SettingsText
import TrialBoard.Proofs.WireFormats
import TrialBoard.Proofs.ConnectionLimit
import TrialBoard.Proofs.Preparation
import TrialBoard.Proofs.SettingTrees
import TrialBoard.Proofs.SettingSources
import TrialBoard.Proofs.SettingLayers
import TrialBoard.Proofs.QuotedText
import TrialBoard.Proofs.DocumentText
import TrialBoard.Proofs.ShownSettings
import TrialBoard.Proofs.BrokenStreams
import TrialBoard.Proofs.Selection
import TrialBoard.Proofs.Atomicity
import TrialBoard.Proofs.PercentText
import TrialBoard.Proofs.Questions
import TrialBoard.Proofs.JoinedDetail
import TrialBoard.Proofs.ChildSelections
import TrialBoard.Proofs.IntegerTimes
import TrialBoard.Proofs.FetchedDetail
import TrialBoard.Proofs.FeedWindow
