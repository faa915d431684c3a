import SelfOlm.MegolmAdvanceProofs
import SelfOlm.SessionFailureProofs
import SelfOlm.GroupMessagingProofs
import SelfOlm.MessageProofs
import SelfOlm.SignatureProofs
import SelfOlm.PickleProofs
import SelfOlm.KeyShareProofs
import SelfOlm.InboundSessionProofs
import SelfOlm.RatchetInvariantProofs
import SelfOlm.KeyFreshnessProofs
import SelfOlm.GroupKeyFreshnessProofs
import SelfOlm.GroupPickleProofs
import SelfOlm.StrictPickleProofs
import SelfOlm.ReloadProofs
import SelfOlm.PublicKeyProofs
import SelfOlm.NoReplayProofs
import SelfOlm.BufferBoundsProofs
import SelfOlm.DescribeProofs
import SelfOlm.SasProofs
import SelfOlm.PublicKeyExchangeProofs
import SelfOlm.OneTimeKeyProofs
import SelfOlm.InvalidBase64Proofs
import SelfOlm.DecryptStepProofs
import SelfOlm.SkippedKeyProofs
import SelfOlm.CbcProofs
import SelfOlm.CipherBoundsProofs
import SelfOlm.HkdfProofs
import SelfOlm.NullFieldProofs
import SelfOlm.Base64RoundTripProofs
import SelfOlm.DecoderLoopProofs
import SelfOlm.DecoderExactProofs
import SelfOlm.DecoderOrderProofs
import SelfOlm.DecoderStateProofs
import SelfOlm.DecoderBoundsProofs
import SelfOlm.SessionAgreementProofs
import SelfOlm.DecodeInPlaceProofs
import SelfOlm.ListPlacesProofs
import SelfOlm.KeyGenerationProofs
import SelfOlm.OneTimeKeyJsonProofs
import SelfOlm.ReportedSizeProofs
import SelfOlm.RatchetEpochProofs
import SelfOlm.ConversationProofs
import SelfOlm.HealingProofs
import SelfOlm.GroupForwardSecrecyProofs
import SelfOlm.MegolmCostProofs
import SelfOlm.AesProofs
import SelfOlm.Sha256Proofs
import SelfOlm.Sha512Context
import SelfOlm.SessionInterfaceProofs
import SelfOlm.OneTimeKeyUseProofs
import SelfOlm.Curve25519MultipleProofs
