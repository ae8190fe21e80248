import TanConsensus.Types
import TanConsensus.Float.Dyadic
import TanConsensus.Float.Round
import TanConsensus.Float.Go
import TanConsensus.Ibft.Validators
import TanConsensus.Ibft.Quorum
import TanConsensus.Ibft.Intersection
import TanConsensus.Ibft.Proposer
import TanConsensus.Polybft.ValidatorSet
import TanConsensus.Polybft.Quorum
import TanConsensus.Polybft.Transport
import TanConsensus.Rootchain.ErrGroup
import TanConsensus.Rootchain.Deploy
import TanConsensus.Command.EventLogs
